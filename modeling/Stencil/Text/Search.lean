/-! # Searching a text

Every search of the library is the same one: the least number of characters after which the rest
of the text satisfies a test.
-/

namespace Stencil.Text

/-- The least `n` such that the text without its first `n` characters satisfies `p`. The empty
rest is tried too. -/
def seek (p : List Char → Bool) : List Char → Option Nat
  | [] => if p [] then some 0 else none
  | c :: cs => if p (c :: cs) then some 0 else (seek p cs).map (· + 1)

/-- Where `needle` first stands in a text. -/
def find (needle : List Char) (s : List Char) : Option Nat :=
  seek needle.isPrefixOf s

/-- Two texts that differ at most in the case of ASCII letters. -/
def sameIgnoringCase (s t : List Char) : Bool :=
  s.map Char.toLower == t.map Char.toLower

/-- The places (counted in characters from `i`) of the characters that satisfy `p`. -/
def indexesFrom (i : Nat) (p : Char → Bool) : List Char → List Nat
  | [] => []
  | c :: cs => if p c then i :: indexesFrom (i + 1) p cs else indexesFrom (i + 1) p cs

/-- The places of the characters of a text that satisfy `p`. -/
def indexes (p : Char → Bool) (s : List Char) : List Nat :=
  indexesFrom 0 p s

theorem seek_le_length {p : List Char → Bool} {s : List Char} {n : Nat}
    (h : seek p s = some n) : n ≤ s.length := by
  induction s generalizing n with
  | nil =>
    simp only [seek] at h
    split at h
    · simp_all
    · simp at h
  | cons c cs ih =>
    simp only [seek] at h
    split at h
    · simp_all
      omega
    · obtain ⟨m, hm, rfl⟩ := Option.map_eq_some_iff.1 h
      have := ih hm
      simp only [List.length_cons]
      omega

/-- A search that succeeds stops where the test holds. -/
theorem seek_holds {p : List Char → Bool} {s : List Char} {n : Nat}
    (h : seek p s = some n) : p (s.drop n) = true := by
  induction s generalizing n with
  | nil =>
    simp only [seek] at h
    split at h
    · simp_all
    · simp at h
  | cons c cs ih =>
    simp only [seek] at h
    split at h
    · next hp =>
      cases h
      exact hp
    · obtain ⟨m, hm, rfl⟩ := Option.map_eq_some_iff.1 h
      simpa using ih hm

end Stencil.Text
