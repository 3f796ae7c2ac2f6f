import Stencil.Read.Directive

/-! # Directive names

Taking a directive name apart loses nothing: its head, its argument and its remainder follow one
another in the name. So the pieces of the remainder stand where their lengths say.
-/

namespace Stencil

/-- The pieces of a text and the characters between them make up the text. -/
theorem Text.length_pieces (p : Char → Bool) (s : List Char) :
    (pieces p s).flatten.length + (pieces p s).length = s.length + 1 := by
  induction s with
  | nil => rfl
  | cons c s ih =>
      rw [pieces]
      split
      · simp only [List.flatten_cons, List.nil_append, List.length_cons]
        omega
      · cases rest : pieces p s with
        | nil =>
            rw [rest] at ih
            simp at ih
        | cons w ws =>
            rw [rest] at ih
            simp only [List.flatten_cons, List.length_append, List.length_cons] at ih ⊢
            omega

namespace DirectiveName

/-- A run that stops early stops at the character it looks for. -/
theorem takeWhile_ne_append_prefix {c : Char} {s : List Char}
    (h : (s.takeWhile (· != c)).length < s.length) : s.takeWhile (· != c) ++ [c] <+: s := by
  induction s with
  | nil => cases h
  | cons d s ih =>
      by_cases same : d = c
      · subst same
        simp
      · have next : (d != c) = true := by simpa using same
        rw [List.takeWhile_cons, if_pos next] at h ⊢
        exact List.cons_prefix_cons.mpr ⟨rfl, ih (Nat.lt_of_succ_lt_succ h)⟩

theorem prefix_of_argument? {s arg : List Char} (h : argument? s = some arg) : arg <+: s := by
  have plain : ∀ {run : List Char}, run <+: s →
      (if run.isEmpty then none else some run) = some arg → arg <+: s := by
    intro run start h
    split at h
    · cases h
    · cases h
      exact start
  unfold argument? at h
  dsimp only at h
  split at h
  · next t =>
    split at h
    · next closed =>
      cases h
      rw [Bool.and_eq_true, decide_eq_true_eq] at closed
      exact List.cons_prefix_cons.mpr ⟨rfl, takeWhile_ne_append_prefix closed.2⟩
    · exact plain (List.takeWhile_prefix _) h
  · exact plain (List.takeWhile_prefix _) h

theorem prefix_explicit (n : List Char) :
    (if (explicit n).isEmpty then [] else 'v' :: '-' :: explicit n) <+: n := by
  unfold explicit
  split
  · split
    · exact List.nil_prefix
    · exact List.cons_prefix_cons.mpr
        ⟨rfl, List.cons_prefix_cons.mpr ⟨rfl, List.takeWhile_prefix _⟩⟩
  · exact List.nil_prefix

/-- Nothing of a name is lost when it is taken apart. -/
theorem split_append (n : List Char) :
    (split n).head ++ ((split n).rawArg.getD [] ++ (split n).remainder) = n := by
  have start := List.prefix_iff_eq_append.mp (prefix_explicit n)
  unfold split
  dsimp only
  split
  · next c s tail =>
    split
    · split
      · next arg found =>
        have rest := List.prefix_iff_eq_append.mp (prefix_of_argument? found)
        rw [Option.getD_some, rest, List.append_assoc, List.singleton_append, ← tail]
        exact start
      · exact start
    · exact start
  · exact start

theorem length_split (n : List Char) :
    (split n).head.length + ((split n).rawArg.elim 0 List.length + (split n).remainder.length) =
      n.length := by
  have whole := congrArg List.length (split_append n)
  cases arg : (split n).rawArg with
  | none => simpa [arg] using whole
  | some a => simpa [arg] using whole

end DirectiveName

end Stencil
