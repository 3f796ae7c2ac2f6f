import Mathlib.Data.List.Basic

/-! # Patterns

Patterns over characters and what it means to match them. Often a pattern can match in more than one
way. The ways have an order: of two alternatives the first comes first, an optional part is rather
there than not, and a repetition rather goes on than stops. The match that is found is the first one
in this order, at the first place in the text where there is one at all.
-/

namespace Stencil

/-- A pattern of characters. -/
inductive Pattern where
  /-- The start of the text. -/
  | start
  /-- The end of the text. -/
  | stop
  /-- One character of a class. -/
  | one (p : Char → Bool)
  /-- Characters of a class, at least one and rather more. -/
  | many (p : Char → Bool)
  /-- One pattern after the other. -/
  | seq (a b : Pattern)
  /-- The first pattern rather than the second. -/
  | alt (a b : Pattern)
  /-- The pattern rather than nothing. -/
  | opt (a : Pattern)
  /-- The pattern, and what it matches is noted under a number. -/
  | group (i : Nat) (a : Pattern)

namespace Pattern

/-- A part of a text. -/
structure Part where
  /-- What stands before it. -/
  before : List Char
  text : List Char
  deriving DecidableEq, Repr

/-- How far a match has come. -/
structure Match where
  /-- The text up to there. -/
  before : List Char
  /-- The text from there on. -/
  rest : List Char
  /-- What was noted, newest first. -/
  noted : List (Nat × Part)
  deriving DecidableEq, Repr

/-- What was noted under a number. -/
def Match.group (m : Match) (i : Nat) : Option Part :=
  m.noted.lookup i

/-- The ways to go over one or more characters of a class, the longest first. -/
def runs (p : Char → Bool) (before : List Char) : List Char → List (List Char × List Char)
  | [] => []
  | c :: s => if p c then runs p (before ++ [c]) s ++ [(before ++ [c], s)] else []

/-- The ways in which a pattern matches from some place on, in their order. -/
def ways : Pattern → Match → List Match
  | start, m => if m.before.isEmpty then [m] else []
  | stop, m => if m.rest.isEmpty then [m] else []
  | one p, m =>
    match m.rest with
    | c :: s => if p c then [{ m with before := m.before ++ [c], rest := s }] else []
    | [] => []
  | many p, m => (runs p m.before m.rest).map fun x => { m with before := x.1, rest := x.2 }
  | seq a b, m => (ways a m).flatMap (ways b)
  | alt a b, m => ways a m ++ ways b m
  | opt a, m => ways a m ++ [m]
  | group i a, m =>
    (ways a m).map fun k =>
      { k with noted := (i, ⟨m.before, k.before.drop m.before.length⟩) :: k.noted }

section

variable (a b : Pattern) (m : Match) (p : Char → Bool)

theorem ways_start : ways start m = if m.before.isEmpty then [m] else [] := rfl

theorem ways_stop : ways stop m = if m.rest.isEmpty then [m] else [] := rfl

theorem ways_one_cons (before s : List Char) (c : Char) (noted : List (Nat × Part)) :
    ways (one p) ⟨before, c :: s, noted⟩ =
      if p c then [⟨before ++ [c], s, noted⟩] else [] := rfl

theorem ways_one_nil (before : List Char) (noted : List (Nat × Part)) :
    ways (one p) ⟨before, [], noted⟩ = [] := rfl

theorem ways_many :
    ways (many p) m =
      (runs p m.before m.rest).map fun x => { m with before := x.1, rest := x.2 } := rfl

theorem ways_seq : ways (seq a b) m = (ways a m).flatMap (ways b) := rfl

theorem ways_alt : ways (alt a b) m = ways a m ++ ways b m := rfl

theorem ways_opt : ways (opt a) m = ways a m ++ [m] := rfl

theorem ways_group (i : Nat) :
    ways (group i a) m =
      (ways a m).map fun k =>
        { k with noted := (i, ⟨m.before, k.before.drop m.before.length⟩) :: k.noted } := rfl

end

/-- The match that is found in a text after its part `before`. The whole match is noted under 0. -/
def findFrom (a : Pattern) (before : List Char) : List Char → Option Match
  | [] => (ways (.group 0 a) ⟨before, [], []⟩).head?
  | c :: s =>
    (ways (.group 0 a) ⟨before, c :: s, []⟩).head?.or (findFrom a (before ++ [c]) s)

/-- The match that is found in a text. -/
def find (a : Pattern) (s : List Char) : Option Match :=
  findFrom a [] s

/-- The way that comes first. -/
def Prefers (a : Pattern) (m k : Match) : Prop :=
  (ways a m).head? = some k

/-- There is no way at all. -/
def Fails (a : Pattern) (m : Match) : Prop :=
  ways a m = []

variable {a b : Pattern} {m k l : Match} {p : Char → Bool} {s before : List Char}
  {noted : List (Nat × Part)}

/-- A pattern that matches at the start of a text is found there. -/
theorem find_of_prefers (h : Prefers (.group 0 a) ⟨[], s, []⟩ k) : find a s = some k := by
  unfold Prefers at h
  cases s with
  | nil => exact h
  | cons c s => simp [find, findFrom, h]

/-! ## Ways that come first -/

theorem Prefers.seq (first : Prefers a m k) (second : Prefers b k l) : Prefers (.seq a b) m l := by
  obtain ⟨others, first⟩ := List.head?_eq_some_iff.mp first
  obtain ⟨more, second⟩ := List.head?_eq_some_iff.mp second
  simp [Prefers, ways_seq, first, second]

theorem Prefers.alt_left (h : Prefers a m k) : Prefers (.alt a b) m k := by
  obtain ⟨others, h⟩ := List.head?_eq_some_iff.mp h
  simp [Prefers, ways_alt, h]

theorem Prefers.alt_right (fails : Fails a m) (h : Prefers b m k) : Prefers (.alt a b) m k := by
  unfold Fails at fails
  unfold Prefers at h
  simp [Prefers, ways_alt, fails, h]

theorem Prefers.opt (h : Prefers a m k) : Prefers (.opt a) m k := by
  obtain ⟨others, h⟩ := List.head?_eq_some_iff.mp h
  simp [Prefers, ways_opt, h]

theorem Prefers.opt_of_fails (h : Fails a m) : Prefers (.opt a) m m := by
  unfold Fails at h
  simp [Prefers, ways_opt, h]

theorem Prefers.group {run rest : List Char} {found : List (Nat × Part)}
    (h : Prefers a ⟨before, s, noted⟩ ⟨before ++ run, rest, found⟩) (i : Nat) :
    Prefers (.group i a) ⟨before, s, noted⟩
      ⟨before ++ run, rest, (i, ⟨before, run⟩) :: found⟩ := by
  obtain ⟨others, h⟩ := List.head?_eq_some_iff.mp h
  simp [Prefers, ways_group, h]

theorem prefers_start (h : m.before = []) : Prefers .start m m := by
  simp [Prefers, ways_start, h]

theorem prefers_stop (h : m.rest = []) : Prefers .stop m m := by
  simp [Prefers, ways_stop, h]

theorem prefers_one {c : Char} (h : p c = true) :
    Prefers (.one p) ⟨before, c :: s, noted⟩ ⟨before ++ [c], s, noted⟩ := by
  simp [Prefers, ways_one_cons, h]

/-- No way is longer than the one that stops where the class does. -/
theorem head?_runs {run rest : List Char} (nonempty : run ≠ []) (all : ∀ c ∈ run, p c = true)
    (stop : rest.head?.all (fun c => !p c) = true) :
    (runs p before (run ++ rest)).head? = some (before ++ run, rest) := by
  induction run generalizing before with
  | nil => exact absurd rfl nonempty
  | cons c run ih =>
      have here : p c = true := all c List.mem_cons_self
      cases run with
      | nil =>
          have none : runs p (before ++ [c]) rest = [] := by
            cases rest with
            | nil => rfl
            | cons d rest => simpa [runs] using stop
          simp [runs, here, none]
      | cons d run =>
          have others : ∀ x ∈ d :: run, p x = true := fun x member =>
            all x (List.mem_cons_of_mem c member)
          rw [List.cons_append, runs, if_pos here, List.head?_append,
            ih (List.cons_ne_nil d run) others]
          simp

/-- A repetition prefers to take all the characters it can. -/
theorem prefers_many {run rest : List Char} (nonempty : run ≠ []) (all : ∀ c ∈ run, p c = true)
    (stop : rest.head?.all (fun c => !p c) = true) :
    Prefers (.many p) ⟨before, run ++ rest, noted⟩ ⟨before ++ run, rest, noted⟩ := by
  simp [Prefers, ways_many, head?_runs nonempty all stop]

/-! ## No way -/

theorem Fails.seq (h : ∀ k ∈ ways a m, Fails b k) : Fails (.seq a b) m := by
  simpa [Fails, ways_seq, List.flatMap_eq_nil_iff] using h

theorem Fails.seq_left (h : Fails a m) : Fails (.seq a b) m := by
  unfold Fails at h
  simp [Fails, ways_seq, h]

/-- If there is only one way to start, it decides. -/
theorem Fails.seq_right (first : ways a m = [k]) (h : Fails b k) : Fails (.seq a b) m := by
  refine .seq fun l hl => ?_
  rw [first] at hl
  cases List.mem_singleton.mp hl
  exact h

theorem Fails.alt (h : Fails a m) (h' : Fails b m) : Fails (.alt a b) m := by
  unfold Fails at h h'
  simp [Fails, ways_alt, h, h']

theorem Fails.group (h : Fails a m) (i : Nat) : Fails (.group i a) m := by
  unfold Fails at h
  simp [Fails, ways_group, h]

theorem fails_one (h : ∀ c ∈ s.head?, p c = false) : Fails (.one p) ⟨before, s, noted⟩ := by
  unfold Fails
  cases s with
  | nil => exact ways_one_nil p before noted
  | cons c s => simp [ways_one_cons, h c rfl]

theorem fails_many (h : ∀ c ∈ s.head?, p c = false) : Fails (.many p) ⟨before, s, noted⟩ := by
  unfold Fails
  cases s with
  | nil => rfl
  | cons c s => simp [ways_many, runs, h c rfl]

/-- A way to go over characters of a class goes over one or more of them. -/
theorem exists_of_mem_runs {x : List Char × List Char} (h : x ∈ runs p before s) :
    ∃ run, run ≠ [] ∧ (∀ c ∈ run, p c = true) ∧ s = run ++ x.2 := by
  induction s generalizing before with
  | nil => cases h
  | cons c s ih =>
      rw [runs] at h
      split at h
      · next here =>
        rcases List.mem_append.mp h with longer | this
        · obtain ⟨run, _, all, rfl⟩ := ih longer
          exact ⟨c :: run, List.cons_ne_nil c run, List.forall_mem_cons.mpr ⟨here, all⟩, rfl⟩
        · cases List.mem_singleton.mp this
          exact ⟨[c], List.cons_ne_nil c [], by simpa using here, rfl⟩
      · cases h

end Pattern

end Stencil
