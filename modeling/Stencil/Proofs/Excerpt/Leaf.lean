import Stencil.Proofs.Excerpt
import Stencil.Proofs.Spans.Leaf

/-! # Leaves of an excerpt

Texts, interpolations, comments and sections are read in an excerpt as in the whole template, or
they go on behind it.
-/

namespace Stencil

variable {u t : List Char} {c : Cursor}

/-! ## Texts -/

namespace TextNode

theorem endsAt_nil (o : Options) (mode : TextMode) : endsAt o mode [] = false := by
  cases mode with
  | cData => rfl
  | data | rcData | rawText | attributeValue =>
      cases open_ : o.openDelimiter <;> simp [endsAt, open_]

/-- A run of text ends in the excerpt, or where the excerpt ends if it would end there anyway, or
    it goes on behind the excerpt. -/
theorem lengthAt_append (o : Options) (mode : TextMode) {y : List Char} (more : y ≠ [])
    (seam : Text.Seamless (endsAt o mode) t y) :
    lengthAt o mode (y ++ t) = lengthAt o mode y ∨
      lengthAt o mode y = y.length ∧ y.length < lengthAt o mode (y ++ t) ∧
        endsAt o mode t = false := by
  cases y with
  | nil => exact absurd rfl more
  | cons d y =>
      have inside := Text.seek_seamless (Text.Seamless.suffix (x := [d]) seam) (endsAt_nil o mode)
      rw [List.cons_append, lengthAt, lengthAt, inside]
      cases Text.seek (endsAt o mode) y with
      | some n => exact .inl rfl
      | none =>
          cases behind : Text.seek (endsAt o mode) t with
          | some n =>
              cases n with
              | zero =>
                  left
                  simp
              | succ n =>
                  have goes :=
                    Text.eq_false_of_seek (p := endsAt o mode) (y := t) (by simp [behind])
                  refine .inr ⟨rfl, ?_, goes⟩
                  simp only [Option.map_some, Option.getD_some, List.length_cons]
                  omega
          | none =>
              have goes := Text.eq_false_of_seek (p := endsAt o mode) (y := t) (by simp [behind])
              cases t with
              | nil =>
                  left
                  simp
              | cons e t =>
                  refine .inr ⟨rfl, ?_, goes⟩
                  simp only [Option.map_none, Option.getD_none, List.length_cons,
                    List.length_append]
                  omega

theorem lengthAt_le (o : Options) (mode : TextMode) (y : List Char) :
    lengthAt o mode y ≤ y.length := by
  cases y with
  | nil => exact Nat.le_refl 0
  | cons d y =>
      rw [lengthAt, List.length_cons]
      cases found : Text.seek (endsAt o mode) y with
      | none => exact Nat.le_refl _
      | some n => exact Nat.succ_le_succ (Text.seek_le_length found)

/-- Behind its first character, a run of text has no place at which it could end. -/
theorem not_endsAt_of_lt {o : Options} {mode : TextMode} {y : List Char} {j : Nat}
    (later : 0 < j) (before : j < lengthAt o mode y) : endsAt o mode (y.drop j) = false := by
  cases y with
  | nil => simp [lengthAt] at before
  | cons d y =>
      cases j with
      | zero => omega
      | succ j =>
          simp only [List.drop_succ_cons]
          apply Text.eq_false_before_seek
          simpa [lengthAt] using before

/-- A run of text ends at such a place, or at the end of the template. -/
theorem endsAt_drop_lengthAt (o : Options) (mode : TextMode) (y : List Char) :
    y.drop (lengthAt o mode y) = [] ∨ endsAt o mode (y.drop (lengthAt o mode y)) = true := by
  cases y with
  | nil => exact .inl rfl
  | cons d y =>
      simp only [lengthAt, List.drop_succ_cons]
      cases found : Text.seek (endsAt o mode) y with
      | none => simp
      | some n => exact .inr (Text.seek_holds found)

theorem read_within (o : Options) (mode : TextMode) (first : 0 < c.position.line)
    (more : c.rest ≠ []) (seam : Text.Seamless (endsAt o mode) t c.rest) (u : List Char) :
    (read o mode (c.within u t)).Matches u t (TextNode.behind u) (read o mode c) ∨
      (read o mode (c.within u t)).RunsOver t (read o mode c) ∧ endsAt o mode t = false := by
  have fits := lengthAt_le o mode c.rest
  rcases lengthAt_append o mode more seam with same | ⟨whole, beyond, goes⟩
  · left
    have cursor := Cursor.skip_within (t := t) first (.inl fits) u
    refine ⟨?_, ?_, rfl⟩
    · simp only [read, Cursor.rest_within, same, cursor, TextNode.behind,
        List.take_append_of_le_length fits, Cursor.locationTo_within (c.reaches_skip _)]
    · simp only [read, Cursor.rest_within, same, cursor]
  · refine .inr ⟨⟨?_, ?_⟩, goes⟩
    · simp only [read, whole, Cursor.rest_skip, List.drop_length]
    · have bound := lengthAt_le o mode (c.rest ++ t)
      simp only [read, Cursor.rest_within, Cursor.rest_skip, List.length_drop, List.length_append]
        at bound ⊢
      omega

end TextNode

/-! ## Interpolations -/

namespace Interpolation

theorem read?_within_of_some {o : Options} {mode : TextMode} {r : Reading Interpolation}
    (first : 0 < c.position.line) (starts : o.openDelimiter <+: c.rest)
    (h : read? o mode c = some r) (u t : List Char) :
    ∃ r', read? o mode (c.within u t) = some r' ∧ r'.Matches u t (Interpolation.behind u) r := by
  have inner := Cursor.skip_within (t := t) first (.inl starts.length_le) u
  have reached := c.reaches_skip o.openDelimiter.length
  have first := reached.first first
  unfold read? at h ⊢
  dsimp only at h ⊢
  rw [inner]
  generalize c.skip o.openDelimiter.length = d at h first reached
  cases found : Text.find o.closeDelimiter d.rest with
  | none =>
      rw [found] at h
      cases h
  | some n =>
      rw [found] at h
      cases h
      have bound := Text.length_le_of_find found
      have raw : (d.rest ++ t).take n = d.rest.take n :=
        List.take_append_of_le_length (by omega)
      -- the expression without the spaces around it lies before the closing delimiter
      have last : (if (Text.trim (d.rest.take n)).isEmpty then 0
          else (d.rest.take n).length - (Text.trimStart (d.rest.take n)).length) +
          (Text.trim (d.rest.take n)).length ≤ d.rest.length := by
        have trimmed := length_trimmed_le (d.rest.take n)
        have cut := List.length_take_le' n d.rest
        split
        · next none =>
          rw [List.isEmpty_iff.mp none]
          exact Nat.zero_le _
        · omega
      have place : ∀ m, m ≤ d.rest.length → (d.within u t).skip m = (d.skip m).within u t :=
        fun m fits => Cursor.skip_within first (.inl fits) u
      rw [Cursor.rest_within, Text.find_append_of_some found]
      refine ⟨_, rfl, ?_, ?_, rfl⟩
      · dsimp only
        rw [raw, place _ bound, place _ last, place _ (Nat.le_trans (Nat.le_add_right _ _) last),
          Cursor.locationTo_within (d.skip_reaches_skip (Nat.le_add_right _ _)),
          Cursor.locationTo_within (reached.trans (d.reaches_skip _))]
        rfl
      · exact place _ bound

/-- An interpolation that is not closed in the excerpt is closed behind it, if at all. -/
theorem read?_within_of_none {o : Options} {mode : TextMode} (first : 0 < c.position.line)
    (starts : o.openDelimiter <+: c.rest) (h : read? o mode c = none) (u t : List Char) :
    read? o mode (c.within u t) = none ∨
      ∃ r', read? o mode (c.within u t) = some r' ∧ r'.cursor.rest.length < t.length := by
  have inner := Cursor.skip_within (t := t) first (.inl starts.length_le) u
  unfold read? at h ⊢
  dsimp only at h ⊢
  rw [inner]
  generalize c.skip o.openDelimiter.length = d at h
  cases missing : Text.find o.closeDelimiter d.rest with
  | some n =>
      rw [missing] at h
      cases h
  | none =>
      cases found : Text.find o.closeDelimiter (d.within u t).rest with
      | none => exact .inl rfl
      | some n =>
          refine .inr ⟨_, rfl, ?_⟩
          have beyond := Text.lt_of_find_append missing found
          have bound := Text.length_le_of_find found
          simp only [Cursor.rest_within, Cursor.rest_skip, List.length_append, List.length_drop]
            at bound ⊢
          omega

end Interpolation

/-! ## Comments -/

namespace Comment

theorem closerAt?_fits {y : List Char} (h : Text.Fits t y) : closerAt? (y ++ t) = closerAt? y := by
  have first : "-->".toList.isPrefixOf (y ++ t) = "-->".toList.isPrefixOf y :=
    Text.isPrefixOf_fits (by decide) h
  have second : "--!>".toList.isPrefixOf (y ++ t) = "--!>".toList.isPrefixOf y :=
    Text.isPrefixOf_fits (by decide) h
  simp only [closerAt?, closers, List.find?_cons, List.find?_nil, first, second]

theorem length_closerAt?_pos {y closer : List Char} (h : closerAt? y = some closer) :
    0 < closer.length ∧ closer <+: y := by
  have member := List.mem_of_find?_eq_some h
  have starts := List.find?_some h
  simp only [closers, List.mem_cons, List.not_mem_nil, or_false] at member
  refine ⟨?_, List.isPrefixOf_iff_prefix.mp starts⟩
  rcases member with rfl | rfl <;> decide

theorem lt_of_mem_openersFrom {i j limit : Nat} {s : List Char}
    (h : j ∈ openersFrom i limit s) : j < limit := by
  induction s generalizing i with
  | nil => cases h
  | cons d s ih =>
      rw [openersFrom] at h
      split at h
      · next inside =>
        rw [Bool.and_eq_true, decide_eq_true_eq] at inside
        rcases List.mem_cons.mp h with rfl | h
        · omega
        · exact ih h
      · exact ih h

/-- The search for the end of a comment stops at a closing mark. -/
theorem exists_closer {y : List Char} {n : Nat}
    (h : Text.seek (fun s => (closerAt? s).isSome) y = some n) :
    ∃ closer, closerAt? (y.drop n) = some closer ∧ 0 < closer.length ∧
      n + closer.length ≤ y.length := by
  obtain ⟨closer, found⟩ := Option.isSome_iff_exists.mp (Text.seek_holds h)
  obtain ⟨wide, starts⟩ := length_closerAt?_pos found
  have bound := starts.length_le
  have inside := Text.seek_le_length h
  rw [List.length_drop] at bound
  exact ⟨closer, found, wide, by omega⟩

theorem closedErrors_within (first : 0 < c.position.line) {i : Nat} (h : i ≤ c.rest.length)
    (closer : List Char) (u t : List Char) :
    closedErrors (c.within u t) i closer =
      (closedErrors c i closer).map (ParseError.behind u) := by
  have before : (c.within u t).rest.take i = c.rest.take i := List.take_append_of_le_length h
  have nested : (openersFrom 1 i ((c.rest.take i).drop 1)).map
        (fun j => ParseError.at .nestedComment ((c.within u t).ahead j)) =
      ((openersFrom 1 i ((c.rest.take i).drop 1)).map
        fun j => ParseError.at .nestedComment (c.ahead j)).map (ParseError.behind u) := by
    rw [List.map_map]
    refine List.map_congr_left fun j member => ?_
    have inside := lt_of_mem_openersFrom member
    rw [Cursor.ahead_within first (.inl (by omega)) u]
    rfl
  unfold closedErrors
  rw [before, nested, List.map_append, List.map_append]
  congr 2
  · split <;> rfl
  · split <;> rfl

theorem read_within (h : c.Fits t) (u : List Char) :
    (read (c.within u t)).Matches u t (Comment.behind u) (read c) ∨
      (read (c.within u t)).RunsOver t (read c) ∧ (read c).log.errors ≠ [] := by
  have seam : Text.Seamless (fun s => (closerAt? s).isSome) t c.rest := by
    intro x z split more
    have fits := h.text
    rw [split] at fits
    exact congrArg Option.isSome (closerAt?_fits (fits.suffix more))
  have search := Text.seek_seamless seam rfl
  cases here : Text.seek (fun s => (closerAt? s).isSome) c.rest with
  | some n =>
      left
      obtain ⟨closer, found, _, bound⟩ := exists_closer here
      have fits : n ≤ c.rest.length := by omega
      have inside : closerAt? ((c.rest ++ t).drop n) = some closer := by
        rw [List.drop_append_of_le_length fits, closerAt?_fits (h.text.drop ?_), found]
        obtain ⟨wide, _⟩ := length_closerAt?_pos found
        omega
      rw [here] at search
      have cursor := Cursor.skip_within (t := t) h.first (.inl bound) u
      unfold read
      dsimp only
      rw [Cursor.rest_within, search, here]
      dsimp only
      rw [inside, found]
      refine ⟨?_, cursor, closedErrors_within h.first fits _ u t⟩
      dsimp only [Option.getD_some, Comment.behind]
      rw [cursor, Cursor.locationTo_within (c.reaches_skip _),
        List.take_append_of_le_length fits]
  | none =>
      rw [here] at search
      have short : read c = ⟨⟨c.rest.drop 4, c.locationTo (c.skip c.rest.length)⟩,
          c.skip c.rest.length, .error .eofInComment (c.skip c.rest.length).position⟩ := by
        rw [read, here]
      rw [short]
      cases t with
      | nil =>
          left
          have cursor := Cursor.skip_within (t := []) h.first (.inl (Nat.le_refl _)) u
          simp only [List.append_nil] at search
          unfold read
          dsimp only
          rw [Cursor.rest_within, List.append_nil, here]
          dsimp only
          rw [cursor]
          refine ⟨?_, rfl, rfl⟩
          rw [Cursor.locationTo_within (c.reaches_skip _)]
          rfl
      | cons e t =>
          refine .inr ⟨⟨by simp, ?_⟩, nofun⟩
          unfold read
          dsimp only
          cases found : Text.seek (fun s => (closerAt? s).isSome) (c.within u (e :: t)).rest with
          | none => simp
          | some n =>
              obtain ⟨closer, at_, wide, bound⟩ := exists_closer found
              obtain ⟨m, _, rfl⟩ := Option.map_eq_some_iff.mp (search.symm.trans found)
              dsimp only
              rw [at_]
              simp only [Option.getD_some, Cursor.rest_skip, Cursor.rest_within, List.length_drop,
                List.length_append] at bound ⊢
              omega

/-- Markup that is taken for a comment ends with a tag. -/
theorem readBogus_within (h : c.Fits t) (mark : c.rest.head? = some '<') (u : List Char) :
    (readBogus (c.within u t)).Matches u t (Comment.behind u) (readBogus c) := by
  obtain ⟨y, text⟩ : ∃ y, c.rest = '<' :: y := by
    cases rest : c.rest with
    | nil =>
        rw [rest] at mark
        cases mark
    | cons d y =>
        rw [rest] at mark
        exact ⟨y, by rw [Option.some.inj mark]⟩
  have fits := h.text
  have second : (c.rest ++ t)[1]? = c.rest[1]? := by
    rw [text] at fits ⊢
    rcases fits.tail (by decide) with rfl | last
    · rw [List.append_nil]
    · cases y with
      | nil => cases last
      | cons d y => rfl
  have body := Text.takeWhile_fits (q := (· != '>')) fits rfl
  have bound : (c.rest.takeWhile (· != '>')).length + 1 ≤ c.rest.length ∨ t = [] :=
    fits.symm.imp_left fun last => Text.length_takeWhile_lt last rfl
  have cursor := Cursor.skip_within h.first bound u
  unfold readBogus
  dsimp only
  rw [Cursor.rest_within, second, body, cursor]
  refine ⟨?_, rfl, rfl⟩
  rw [Cursor.locationTo_within (c.reaches_skip _)]
  rfl

end Comment

/-! ## Sections -/

namespace TextNode

theorem Fits.skip_sectionStart (h : c.Fits t) (starts : sectionStart <+: c.rest) :
    (c.skip sectionStart.length).Fits t := by
  obtain ⟨y, text⟩ := starts
  refine ⟨(c.reaches_skip _).first h.first, ?_⟩
  have fits := h.text
  rw [Cursor.rest_skip, ← text, List.drop_left]
  rw [← text] at fits
  cases y with
  | nil => exact fits.imp_right fun last => by cases last
  | cons d y => exact fits.suffix (List.cons_ne_nil d y)

/-- The section whose text starts at `d` and has `n` characters. -/
def sectionOf (d : Cursor) (n : Nat) : Reading (Option TextNode) where
  value := if n = 0 then none else some ⟨d.rest.take n, d.locationTo (d.skip n)⟩
  cursor := (d.skip n).skip sectionEnd.length
  log := if (d.skip n).atEnd then .error .eofInCdata (d.skip n).position else .empty

theorem readSection_eq (c : Cursor) : readSection c = sectionOf (c.skip sectionStart.length)
    ((Text.find sectionEnd (c.skip sectionStart.length).rest).getD
      (c.skip sectionStart.length).rest.length) := rfl

theorem sectionOf_within {n : Nat} (first : 0 < c.position.line) (inside : n ≤ c.rest.length)
    (closed : n + sectionEnd.length ≤ c.rest.length ∨ t = []) (u : List Char) :
    (sectionOf (c.within u t) n).Matches u t (Option.map (TextNode.behind u)) (sectionOf c n) := by
  have close := Cursor.skip_within (t := t) first (.inl inside) u
  have after : ((c.skip n).within u t).skip sectionEnd.length =
      ((c.skip n).skip sectionEnd.length).within u t := by
    refine Cursor.skip_within ((c.reaches_skip n).first first) ?_ u
    refine closed.imp_left fun fits => ?_
    rw [Cursor.rest_skip, List.length_drop]
    omega
  have ends : ((c.skip n).within u t).atEnd = (c.skip n).atEnd := by
    rcases closed with fits | rfl
    · have more : c.rest.drop n ≠ [] := by
        have wide : 0 < sectionEnd.length := by decide
        rw [ne_eq, List.drop_eq_nil_iff]
        omega
      rw [Cursor.atEnd, Cursor.atEnd, Cursor.rest_within, Cursor.rest_skip,
        List.isEmpty_eq_false_iff.mpr more,
        List.isEmpty_eq_false_iff.mpr (List.append_ne_nil_of_left_ne_nil more t)]
    · simp [Cursor.atEnd]
  simp only [sectionOf, close, after, ends]
  refine ⟨?_, rfl, ?_⟩
  · split
    · rfl
    · rw [Cursor.locationTo_within (c.reaches_skip n), Cursor.rest_within,
        List.take_append_of_le_length inside]
      rfl
  · dsimp only
    split <;> rfl

theorem readSection_within (h : c.Fits t) (starts : sectionStart <+: c.rest) (u : List Char) :
    (readSection (c.within u t)).Matches u t (Option.map (TextNode.behind u)) (readSection c) ∨
      (readSection (c.within u t)).RunsOver t (readSection c) ∧
        (readSection c).log.errors ≠ [] := by
  have inner := Cursor.skip_within (t := t) h.first (.inl starts.length_le) u
  have fits := Fits.skip_sectionStart h starts
  rw [readSection_eq, readSection_eq, inner]
  generalize c.skip sectionStart.length = d at fits
  have seam : Text.Seamless sectionEnd.isPrefixOf t d.rest :=
    Text.seamless_isPrefixOf (by decide) fits.text
  have search : Text.find sectionEnd (d.within u t).rest = _ := Text.seek_seamless seam rfl
  cases here : Text.find sectionEnd d.rest with
  | some n =>
      left
      rw [Text.find] at here
      rw [here] at search
      rw [search]
      have bound := Text.length_le_of_find here
      exact sectionOf_within fits.first (by omega) (.inl bound) u
  | none =>
      rw [Text.find] at here
      rw [here] at search
      cases t with
      | nil =>
          left
          rw [Cursor.rest_within, List.append_nil] at search ⊢
          rw [Text.find, here]
          exact sectionOf_within fits.first (Nat.le_refl _) (.inr rfl) u
      | cons e t =>
          refine .inr ⟨⟨by simp [sectionOf], ?_⟩, by simp [sectionOf, Cursor.atEnd, Log.error,
            Log.ofErrors]⟩
          rw [search]
          simp only [sectionOf, Cursor.rest_skip, Cursor.rest_within, List.length_drop,
            List.length_append, List.length_cons]
          have wide : 0 < sectionEnd.length := by decide
          cases Text.seek sectionEnd.isPrefixOf (e :: t) with
          | none =>
              simp only [Option.map_none, Option.getD_none]
              omega
          | some n =>
              simp only [Option.map_some, Option.getD_some]
              omega

end TextNode

end Stencil
