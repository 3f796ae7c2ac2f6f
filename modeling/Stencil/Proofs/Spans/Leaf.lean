import Stencil.Proofs.Spans

/-! # Spans of leaves

What every reader of the library has in common: it goes forward, what it returns lies between where
it started and where it stopped, and what it reports is about places behind the start.
-/

namespace Stencil

/-- Every report is about a place that `a` reaches, and every error is about a single point. -/
structure Log.From (a : Cursor) (log : Log) : Prop where
  errors : ∀ e ∈ log.errors, ∃ c, a.Reaches c ∧ e.loc = some (.point c.position)
  warnings : ∀ w ∈ log.warnings, ∀ l ∈ w.loc, ∃ b, l.Spans a b

namespace Log

variable {a b : Cursor} {log log' : Log}

theorem From.empty (a : Cursor) : From a .empty :=
  ⟨fun _ he => (nomatch he), fun _ hw => (nomatch hw)⟩

theorem From.append (h : log.From a) (k : log'.From a) : (log ++ log').From a where
  errors e he := by
    rcases List.mem_append.mp he with he | he
    · exact h.errors e he
    · exact k.errors e he
  warnings w hw := by
    rcases List.mem_append.mp hw with hw | hw
    · exact h.warnings w hw
    · exact k.warnings w hw

theorem From.widen (h : log.From b) (left : a.Reaches b) : log.From a where
  errors e he := by
    obtain ⟨c, reached, place⟩ := h.errors e he
    exact ⟨c, left.trans reached, place⟩
  warnings w hw l hl := by
    obtain ⟨d, spans⟩ := h.warnings w hw l hl
    exact ⟨d, spans.widen left (.refl d)⟩

theorem From.error (code : ErrorCode) (h : a.Reaches b) : (Log.error code b.position).From a where
  errors e he := by
    cases List.mem_singleton.mp he
    exact ⟨b, h, rfl⟩
  warnings _ hw := nomatch hw

/-- Errors that are each noticed at some number of characters behind `a`. -/
theorem From.map_ahead (code : ErrorCode) (a : Cursor) (places : List Nat) :
    (Log.ofErrors (places.map fun i => .at code (a.ahead i))).From a where
  errors e he := by
    obtain ⟨i, _, rfl⟩ := List.mem_map.mp he
    exact ⟨a.skip i, a.reaches_skip i, rfl⟩
  warnings _ hw := nomatch hw

theorem From.ofErrors_append {es fs : List ParseError} (h : (Log.ofErrors es).From a)
    (k : (Log.ofErrors fs).From a) : (Log.ofErrors (es ++ fs)).From a :=
  h.append k

theorem From.ofErrors_ite {p : Prop} [Decidable p] {code : ErrorCode} (h : a.Reaches b) :
    (Log.ofErrors (if p then [.at code b.position] else [])).From a := by
  split
  · exact .error code h
  · exact .empty a

theorem From.ite {p : Prop} [Decidable p] (h : log.From a) :
    (if p then log else .empty).From a := by
  split
  · exact h
  · exact .empty a

theorem From.ofWarnings {ws : List Legacy.Warning}
    (h : ∀ w ∈ ws, ∀ l ∈ w.loc, ∃ b, l.Spans a b) : (Log.ofWarnings ws).From a :=
  ⟨fun _ he => (nomatch he), h⟩

end Log

/-- Reading from `a` goes forward, gives something that stands on the way, and reports nothing
    about what came before. -/
structure Reading.Sound {α : Type} (P : Cursor → Cursor → α → Prop) (a : Cursor)
    (r : Reading α) : Prop where
  reaches : a.Reaches r.cursor
  value : P a r.cursor r.value
  log : r.log.From a

namespace TextNode

theorem read_sound (o : Options) (mode : TextMode) (c : Cursor) :
    (read o mode c).Sound (fun a b t => (Node.text t).Spans a b) c where
  reaches := c.reaches_skip _
  value := by
    rw [Node.Spans]
    exact .of_reaches (.refl _) (c.reaches_skip _) (.refl _)
  log := .empty c

theorem readSection_sound (c : Cursor) :
    (readSection c).Sound (fun a b t => Node.ListSpans a b (t.toList.map Node.text)) c := by
  have inner := c.reaches_skip sectionStart.length
  have close := (c.skip sectionStart.length).reaches_skip
    ((Text.find sectionEnd (c.skip sectionStart.length).rest).getD
      (c.skip sectionStart.length).rest.length)
  have after := Cursor.reaches_skip (Cursor.skip (c.skip sectionStart.length)
    ((Text.find sectionEnd (c.skip sectionStart.length).rest).getD
      (c.skip sectionStart.length).rest.length)) sectionEnd.length
  refine ⟨(inner.trans close).trans after, ?_, ?_⟩
  · simp only [readSection]
    split
    · exact (inner.trans close).trans after
    · refine ⟨_, ?_, .refl _⟩
      rw [Node.Spans]
      exact .of_reaches inner close after
  · simp only [readSection]
    exact .ite (.error _ (inner.trans close))

end TextNode

namespace Interpolation

theorem length_trimmed_le (s : List Char) :
    s.length - (Text.trimStart s).length + (Text.trim s).length ≤ s.length := by
  have start : (Text.trimStart s).length ≤ s.length := (List.dropWhile_suffix _).length_le
  have stop : (Text.trim s).length ≤ (Text.trimStart s).length := by
    rw [Text.trim, Text.trimEnd, List.length_reverse, ← @List.length_reverse _ (Text.trimStart s)]
    exact (List.dropWhile_suffix _).length_le
  omega

theorem read?_sound {o : Options} {mode : TextMode} {c : Cursor} {r : Reading Interpolation}
    (h : read? o mode c = some r) :
    r.Sound (fun a b i => (Node.interpolation i).Spans a b) c := by
  unfold read? at h
  dsimp only at h
  split at h
  · cases h
  · next n found =>
    cases h
    have inner := c.reaches_skip o.openDelimiter.length
    have after := (c.skip o.openDelimiter.length).reaches_skip (n + o.closeDelimiter.length)
    refine ⟨inner.trans after, ?_, .empty c⟩
    rw [Node.Spans]
    refine .of_reaches (inner.trans after)
      (.of_reaches (inner.trans (Cursor.reaches_skip _ _)) ?_ ?_)
    · exact Cursor.skip_reaches_skip _ (Nat.le_add_right _ _)
    · -- the expression without the spaces around it ends before the closing delimiter
      apply Cursor.skip_reaches_skip
      have bound := length_trimmed_le ((c.skip o.openDelimiter.length).rest.take n)
      have cut := List.length_take_le n (c.skip o.openDelimiter.length).rest
      split
      · next empty =>
        rw [List.isEmpty_iff.mp empty]
        exact Nat.zero_le _
      · omega

theorem loc_of_read? {o : Options} {mode : TextMode} {c : Cursor} {r : Reading Interpolation}
    (h : read? o mode c = some r) : r.value.loc = c.locationTo r.cursor := by
  unfold read? at h
  dsimp only at h
  split at h
  · cases h
  · cases h
    rfl

end Interpolation

namespace Comment

theorem loc_read (c : Cursor) : (read c).value.loc = c.locationTo (read c).cursor := by
  unfold read
  dsimp only
  split <;> rfl

theorem closedErrors_from (c : Cursor) (i : Nat) (closer : List Char) :
    (Log.ofErrors (closedErrors c i closer)).From c :=
  .ofErrors_append (.ofErrors_append (.ofErrors_ite (.refl c)) (.ofErrors_ite (.refl c)))
    (.map_ahead _ c _)

theorem read_sound (c : Cursor) :
    (read c).Sound (fun a b x => (Node.comment x).Spans a b) c := by
  unfold read
  dsimp only
  split
  · have after := c.reaches_skip c.rest.length
    refine ⟨after, ?_, .error _ after⟩
    rw [Node.Spans]
    exact .of_reaches (.refl _) after (.refl _)
  · next i found =>
    have after := c.reaches_skip (i + ((closerAt? (c.rest.drop i)).getD []).length)
    refine ⟨after, ?_, closedErrors_from c i _⟩
    rw [Node.Spans]
    exact .of_reaches (.refl _) after (.refl _)

theorem readBogus_sound (c : Cursor) :
    (readBogus c).Sound (fun a b x => (Node.comment x).Spans a b) c where
  reaches := c.reaches_skip _
  value := by
    rw [Node.Spans]
    exact .of_reaches (.refl _) (c.reaches_skip _) (.refl _)
  log := .empty c

/-- A comment of either kind stands from where its reading starts to where it ends. -/
theorem place_of_read {c : Cursor} {r : Reading Comment} (h : r = read c ∨ r = readBogus c) :
    c.Reaches r.cursor ∧ r.value.loc = c.locationTo r.cursor := by
  rcases h with rfl | rfl
  · exact ⟨(read_sound c).reaches, loc_read c⟩
  · exact ⟨(readBogus_sound c).reaches, rfl⟩

end Comment

end Stencil
