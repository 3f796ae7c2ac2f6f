import Stencil.Proofs.Content
import Stencil.Proofs.Settling

/-! # Condensing at a seam

Condensing goes through a text once and remembers nothing of it but whether the last character was a
blank. So a text can be condensed in two parts, if the second one starts from what the first one
leaves behind; and what that is can be read off the condensed part as well. Texts may therefore be
condensed before they are joined, as long as the whole is condensed once more.
-/

namespace Stencil.Text

/-- What condensing remembers after a text: whether its last character was a blank. -/
def runAfter (inRun : Bool) : List Char → Bool
  | [] => inRun
  | c :: cs => runAfter (isBlank c) cs

/-- The second part of a text is condensed from what the first one leaves behind. -/
theorem condenseFrom_append (inRun : Bool) (s t : List Char) :
    condenseFrom inRun (s ++ t) = condenseFrom inRun s ++ condenseFrom (runAfter inRun s) t := by
  induction s generalizing inRun with
  | nil => rfl
  | cons c s ih =>
      rw [List.cons_append, runAfter]
      cases blank : isBlank c with
      | true => cases inRun <;> simp [condenseFrom, blank, ih]
      | false => simp [condenseFrom, blank, ih]

/-- A condensed text ends in a blank if the text did. Blanks at the start of `s` may be gone, and
    then they have been remembered. -/
theorem runAfter_condenseFrom {inner outer : Bool} (h : inner = true → outer = true)
    (s : List Char) : runAfter outer (condenseFrom inner s) = runAfter outer s := by
  induction s generalizing inner outer with
  | nil => rfl
  | cons c s ih =>
      have space : isBlank ' ' = true := rfl
      cases blank : isBlank c with
      | false => simp [condenseFrom, runAfter, blank, ih]
      | true =>
          cases inner with
          | true => simp [condenseFrom, runAfter, blank, h rfl, ih]
          | false => simp [condenseFrom, runAfter, blank, space, ih]

/-- Texts that are condensed one by one come to the same when they are joined and condensed. -/
theorem condense_condense_append (s t : List Char) :
    condense (condense s ++ condense t) = condense (s ++ t) := by
  calc condense (condense s ++ condense t)
      = condense (condense s ++ t) := condense_append_condense _ t
    _ = condense (condense s) ++ condenseFrom (runAfter false (condense s)) t :=
        condenseFrom_append false _ t
    _ = condense s ++ condenseFrom (runAfter false s) t := by
        rw [condense_condense, condense, runAfter_condenseFrom id]
    _ = condense (s ++ t) := (condenseFrom_append false s t).symm

/-- Nothing but a single space is left of blanks. -/
theorem condense_eq_nil_or_space_iff (s : List Char) :
    condense s = [] ∨ condense s = [' '] ↔ isBlankOnly s = true := by
  constructor
  · rintro (none | space)
    · rw [← isBlankOnly_condenseFrom false s, ← condense, none]
      rfl
    · rw [← isBlankOnly_condenseFrom false s, ← condense, space]
      rfl
  · intro blank
    by_cases empty : s = []
    · exact .inl (by rw [empty]; rfl)
    · exact .inr (condense_of_blank blank empty)

/-- All bytes of a text satisfy a test if its characters do. -/
theorem all_bytes {test : Char → Bool} (ascii : IsAscii test) (s : List Char) :
    (bytes s).all (ofByte test) = s.all test := by
  induction s with
  | nil => rfl
  | cons c s ih =>
      rw [bytes_cons, List.all_append, List.all_cons, ih]
      congr 1
      rw [Bool.eq_iff_iff, List.all_eq_true]
      constructor
      · intro all
        obtain ⟨b, member⟩ := List.exists_mem_of_ne_nil _ (String.utf8EncodeChar_ne_nil (c := c))
        rw [← ofByte_of_mem ascii member]
        exact all b member
      · intro answer b member
        rw [ofByte_of_mem ascii member]
        exact answer

/-- Condensing goes with joining. It leaves single spaces and no other blanks, keeps all characters
    that are not blank in their order, and has nothing or one space left exactly if there are only
    blanks, no matter if these are looked for among the characters or among the bytes. -/
theorem condense_joins (s t : List Char) :
    condense (condense s ++ condense t) = condense (s ++ t) ∧
      SingleSpaced (condense s) ∧ visible (condense s) = visible s ∧
      (condense s = [] ∨ condense s = [' '] ↔ isBlankOnly s = true) ∧
      isBlankOnly s = (bytes s).all (ofByte isBlank) :=
  ⟨condense_condense_append s t, singleSpaced_condenseFrom false s, visible_condense s,
    condense_eq_nil_or_space_iff s, (all_bytes .isBlank s).symm⟩

/-- The blanks on both sides of a seam become one space. -/
example : condense (condense "a \t".toList ++ condense "\n b ".toList) = "a b ".toList := by decide

end Stencil.Text
