import Stencil.Proofs.EndTag

/-! # Searching a text that goes on

A search, or a run of characters, that ends somewhere in a text has nothing to do with what comes
after that place; one that does not end goes on behind the text.
-/

namespace Stencil.Text

variable {p : List Char → Bool} {q : Char → Bool} {s t : List Char}

/-- A search that stops nowhere in `s` goes on behind it. -/
theorem seek_append (h : ∀ x y, s = x ++ y → y ≠ [] → p (y ++ t) = false) :
    seek p (s ++ t) = (seek p t).map (· + s.length) := by
  induction s with
  | nil => simp
  | cons c s ih =>
      have here : p (c :: s ++ t) = false := h [] (c :: s) rfl (List.cons_ne_nil c s)
      have rest := ih fun x y split => h (c :: x) y (by rw [split, List.cons_append])
      rw [List.cons_append] at here ⊢
      rw [seek, here, rest]
      cases seek p t with
      | none => rfl
      | some n => simp [Nat.add_assoc]

theorem seek_of_holds (h : p s = true) : seek p s = some 0 := by
  cases s <;> simp [seek, h]

/-- A search stops at the first place it can. -/
theorem eq_false_before_seek {j : Nat} (before : j < (seek p s).getD s.length) :
    p (s.drop j) = false := by
  induction s generalizing j with
  | nil =>
      simp only [seek] at before
      split at before <;> simp at before
  | cons c s ih =>
      simp only [seek] at before
      split at before
      · simp at before
      · next here =>
        cases j with
        | zero => simpa using here
        | succ j =>
            apply ih
            cases found : seek p s <;> simp [found] at before ⊢ <;> omega

/-- A run of characters that fills `s` and stops there. -/
theorem takeWhile_append (all : ∀ c ∈ s, q c = true) (stop : t.head?.all (fun c => !q c) = true) :
    (s ++ t).takeWhile q = s := by
  rw [takeWhile_eq_take (n := s.length)]
  · exact List.take_left
  · rw [List.take_left]
    exact all
  · rw [List.drop_left]
    exact stop

end Stencil.Text
