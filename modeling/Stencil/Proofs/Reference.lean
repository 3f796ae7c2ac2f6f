import Stencil.Options

/-! # References at a seam

A text may be cut before any character that no reference goes on with: no reference lies across
such a place, so decoding the two parts one by one decodes the whole.
-/

namespace Stencil

namespace Text

variable {s t : List Char}

/-- No basic reference goes on with `c`: behind the mark that all of them start with, none has
    it. -/
def breaksReference (c : Char) : Bool :=
  basicReferences.all fun entry => !entry.1.tail.contains c

/-- A needle that does not have the first character of `t` does not reach into `t`. -/
theorem isPrefixOf_append_of_not_mem {needle : List Char} (h : ∀ c ∈ t.head?, c ∉ needle) :
    needle.isPrefixOf (s ++ t) = needle.isPrefixOf s := by
  induction needle generalizing s with
  | nil => simp
  | cons x needle ih =>
      cases s with
      | nil =>
          cases t with
          | nil => simp
          | cons c t =>
              have other : x ≠ c := by
                intro same
                simp [same] at h
              simp [List.isPrefixOf_cons_cons, other]
      | cons d s =>
          have rest := @ih s fun c hc member => h c hc (List.mem_cons_of_mem x member)
          simp only [List.cons_append, List.isPrefixOf_cons_cons, rest]

/-- A reference that starts in `s` ends in `s`. -/
theorem referenceAt?_append {c : Char} (h : ∀ d ∈ t.head?, breaksReference d = true) :
    referenceAt? basicReferences (c :: s ++ t) = referenceAt? basicReferences (c :: s) := by
  have same : ∀ entry ∈ basicReferences,
      entry.1.isPrefixOf (c :: s ++ t) = entry.1.isPrefixOf (c :: s) := by
    intro entry member
    have inner : ∀ d ∈ t.head?, d ∉ entry.1.tail := by
      intro d hd
      simpa using List.all_eq_true.mp (h d hd) entry member
    cases name : entry.1 with
    | nil => simp
    | cons x needle =>
        rw [name, List.tail_cons] at inner
        simp only [List.cons_append, List.isPrefixOf_cons_cons, isPrefixOf_append_of_not_mem inner]
  unfold referenceAt?
  generalize basicReferences = table at same
  induction table with
  | nil => rfl
  | cons entry table ih =>
      obtain ⟨first, rest⟩ := List.forall_mem_cons.mp same
      simp only [List.find?_cons, first, ih rest]

theorem decodeFrom_append (h : ∀ d ∈ t.head?, breaksReference d = true) {n : Nat}
    (fits : n ≤ s.length) : decodeFrom n (s ++ t) = decodeFrom n s ++ decodeBasic t := by
  induction s generalizing n with
  | nil =>
      cases Nat.le_zero.mp fits
      rfl
  | cons c s ih =>
      cases n with
      | succ n => exact ih (Nat.le_of_succ_le_succ fits)
      | zero =>
          simp only [List.cons_append, decodeFrom]
          rw [← List.cons_append, referenceAt?_append h]
          cases found : referenceAt? basicReferences (c :: s) with
          | none => simp only [ih (Nat.zero_le _), List.cons_append]
          | some entry =>
              have starts : entry.1 <+: c :: s := by
                simpa using List.find?_some found
              have inside := starts.length_le
              simp only [List.length_cons] at inside
              simp only [ih (show entry.1.length - 1 ≤ s.length by omega), List.cons_append]

/-- Texts are decoded one by one where no reference lies across the seam. -/
theorem decodeBasic_append (s : List Char) (h : ∀ c ∈ t.head?, breaksReference c = true) :
    decodeBasic (s ++ t) = decodeBasic s ++ decodeBasic t :=
  decodeFrom_append h (Nat.zero_le _)

theorem head?_of_mem_basicReferences : ∀ entry ∈ basicReferences, entry.1.head? = some '&' := by
  decide

/-- A text without the mark of references stands for itself. -/
theorem decodeBasic_of_not_mem (h : '&' ∉ s) : decodeBasic s = s := by
  induction s with
  | nil => rfl
  | cons c s ih =>
      simp only [List.mem_cons, not_or] at h
      obtain ⟨other, rest⟩ := h
      have none : referenceAt? basicReferences (c :: s) = none := by
        apply List.find?_eq_none.mpr
        intro entry member starts
        have marked := head?_of_mem_basicReferences entry member
        obtain ⟨needle, name⟩ := List.head?_eq_some_iff.mp marked
        simp [name, List.isPrefixOf_cons_cons, other] at starts
      rw [decodeBasic, decodeFrom, none]
      exact congrArg (c :: ·) (ih rest)

end Text

/-- Options that replace the basic references do so in every text that is not raw. Not looking at a
    text without the mark of references makes no difference. -/
theorem Options.decode_of_basic {o : Options}
    (basic : ∀ s isValue, o.decodeReferences s isValue = Text.decodeBasic s) {mode : TextMode}
    (hr : mode ≠ .rawText) (hc : mode ≠ .cData) (s : List Char) :
    o.decode mode s = Text.decodeBasic s := by
  have shortcut : ∀ isValue, (if s.contains '&' then o.decodeReferences s isValue else s) =
      Text.decodeBasic s := by
    intro isValue
    split
    · exact basic s isValue
    · next none => exact (Text.decodeBasic_of_not_mem (by simpa using none)).symm
  cases mode with
  | rawText => exact absurd rfl hr
  | cData => exact absurd rfl hc
  | data | rcData => exact shortcut false
  | attributeValue => exact shortcut true

end Stencil
