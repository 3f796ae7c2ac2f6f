import Stencil.Proofs.Run

/-! # Who reports what

Three errors say something about the open elements: an end tag is missing, an end tag belongs to
none of them, or they are nested too deep. These come from the steps themselves. The readers of
tags, comments and sections never report them.
-/

namespace Stencil

/-- The errors about the open elements. -/
def ErrorCode.isAboutNesting : ErrorCode → Bool
  | .missingEndTag | .invalidEndTag | .nestingTooDeep => true
  | _ => false

/-- Reports of one error differ if they are about different places. -/
theorem ParseError.at_inj {code : ErrorCode} {p q : Position}
    (h : ParseError.at code p = .at code q) : p = q := by
  injection h with _ loc
  injection loc with loc
  injection loc

namespace Log

/-- Nothing is reported about the open elements. -/
def Local (log : Log) : Prop :=
  ∀ e ∈ log.errors, e.code.isAboutNesting = false

variable {log log' : Log} {code : ErrorCode}

theorem Local.empty : Local .empty :=
  fun _ he => nomatch he

theorem Local.append (h : log.Local) (k : log'.Local) : (log ++ log').Local := by
  intro e he
  rcases List.mem_append.mp he with he | he
  · exact h e he
  · exact k e he

theorem Local.error (h : code.isAboutNesting = false) (p : Position) :
    (Log.error code p).Local := by
  intro e he
  cases List.mem_singleton.mp he
  exact h

theorem Local.ofErrors_append {es fs : List ParseError} (h : (Log.ofErrors es).Local)
    (k : (Log.ofErrors fs).Local) : (Log.ofErrors (es ++ fs)).Local :=
  Local.append h k

theorem Local.ofErrors_ite {p : Prop} [Decidable p] {q : Position}
    (h : code.isAboutNesting = false) :
    (Log.ofErrors (if p then [.at code q] else [])).Local := by
  split
  · exact .error h q
  · exact .empty

theorem Local.ite {p : Prop} [Decidable p] (h : log.Local) : (if p then log else .empty).Local := by
  split
  · exact h
  · exact .empty

theorem Local.map_at {α : Type} (h : code.isAboutNesting = false) (f : α → Position)
    (places : List α) : (Log.ofErrors (places.map fun i => .at code (f i))).Local := by
  intro e he
  obtain ⟨i, _, rfl⟩ := List.mem_map.mp he
  exact h

theorem Local.ne (h : log.Local) (nesting : code.isAboutNesting = true) :
    ∀ x ∈ log.errors, x.code ≠ code := by
  intro x hx same
  have quiet := h x hx
  rw [same, nesting] at quiet
  cases quiet

end Log

theorem Notice.isLocal {c : Cursor} {log : Log} (h : Notice c log) : log.Local := by
  cases h with
  | none => exact .empty
  | error code n notice =>
      refine .error ?_ _
      cases code <;> first | rfl | cases notice

/-! ## Leaves -/

namespace Comment

theorem read_local (c : Cursor) : (read c).log.Local := by
  unfold read
  dsimp only
  split
  · exact .error rfl _
  · exact .ofErrors_append (.ofErrors_append (.ofErrors_ite rfl) (.ofErrors_ite rfl))
      (.map_at rfl _ _)

theorem readBogus_local (c : Cursor) : (readBogus c).log.Local :=
  .empty

theorem at?_local {c : Cursor} {r : Reading Comment} (h : at? c = some r) : r.log.Local := by
  rcases eq_of_at? h with rfl | rfl
  · exact read_local c
  · exact readBogus_local c

end Comment

theorem TextNode.readSection_local (c : Cursor) : (readSection c).log.Local := by
  simp only [readSection]
  exact .ite (.error rfl _)

theorem Interpolation.read?_local {o : Options} {mode : TextMode} {c : Cursor}
    {r : Reading Interpolation} (h : read? o mode c = some r) : r.log.Local := by
  unfold read? at h
  dsimp only at h
  split at h
  · cases h
  · cases h
    exact .empty

/-! ## Tags -/

namespace AttributeValue

theorem read_local (o : Options) (c : Cursor) : (read o c).log.Local := by
  unfold read
  split
  · exact .empty
  · exact .empty
  · unfold readUnquoted
    dsimp only
    split
    · exact .empty
    · exact .map_at rfl _ _

end AttributeValue

namespace Property

theorem nameErrors_local (seen : List (List Char)) (name : List Char) (c : Cursor) :
    (Log.ofErrors (nameErrors seen name c)).Local :=
  .ofErrors_append (.ofErrors_append (.ofErrors_ite rfl) (.ofErrors_ite rfl)) (.map_at rfl _ _)

theorem readValue_local (o : Options) (c : Cursor) : (readValue o c).log.Local := by
  unfold readValue
  dsimp only
  split
  · exact (AttributeValue.read_local o _).append (.ofErrors_ite rfl)
  · exact .empty

theorem build_local (o : Options) (start after : Cursor) (raw : List Char)
    (value : Option AttributeValue) : (Directive.build o start after raw value).2.Local :=
  Log.Local.ofErrors_ite (q := after.position) rfl

theorem read_local (o : Options) (vPre : Bool) (seen : List (List Char)) (c : Cursor) :
    (read o vPre seen c).log.Local := by
  have before := (nameErrors_local seen (nameAt c.rest) c).append
    (readValue_local o (c.skip (nameAt c.rest).length))
  unfold read
  dsimp only
  split
  · exact before.append (build_local o _ _ _ _)
  · exact before.append (.ite (.error rfl _))

theorem spacingErrors_local (c : Cursor) : (Log.ofErrors (spacingErrors c)).Local := by
  unfold spacingErrors
  split
  · exact .empty
  · exact .error rfl _

theorem readAll_local (o : Options) (kind : TagKind) (vPre : Bool) (seen : List (List Char))
    (c : Cursor) : (readAll o kind vPre seen c).log.Local := by
  fun_induction readAll o kind vPre seen c with
  | case1 | case2 | case3 => exact .empty
  | case4 seen c _ _ _ r ih => exact Log.Local.append (.error rfl _) ih
  | case5 seen c _ _ _ _ _ _ a r atEndTag ih =>
      exact Log.Local.append (.ofErrors_ite rfl)
        ((read_local o vPre seen c).append (Log.Local.append (spacingErrors_local _) ih))

end Property

namespace Tag

theorem readEnd_local (kind : TagKind) (c : Cursor) : (readEnd kind c).log.Local := by
  unfold readEnd
  split
  · exact .error rfl _
  · exact .ite (.error rfl _)
  · exact .empty

/-- Nothing inside a tag is reported as an error of nesting. -/
theorem read_local (o : Options) (kind : TagKind) (vPre : Bool) (c : Cursor) :
    (read o kind vPre c).log.Local := by
  unfold read
  dsimp only
  split
  · exact (Property.readAll_local o kind true [] _).append (readEnd_local kind _)
  · exact (Property.readAll_local o kind vPre [] _).append (readEnd_local kind _)

end Tag

end Stencil
