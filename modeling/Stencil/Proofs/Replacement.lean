import Stencil.Proofs.Reference

/-! # What decoding replaces

A text falls apart, from left to right, into references and characters that start none. Decoding
replaces each of the references by the character it stands for and leaves the other characters
alone; what it writes is not read again. No reference starts another one, so there is only one way to
take a text apart, and whatever was escaped comes back.
-/

namespace Stencil

namespace Text

variable {s t : List Char} {c : Char}

/-- `t` is `s` with its references replaced, each where reading from left to right comes to it. -/
inductive Replaces : List Char → List Char → Prop where
  | nil : Replaces [] []
  | reference {name s t : List Char} {c : Char} (known : (name, c) ∈ basicReferences)
      (rest : Replaces s t) : Replaces (name ++ s) (c :: t)
  | other {c : Char} {s t : List Char} (none : ∀ entry ∈ basicReferences, ¬ entry.1 <+: c :: s)
      (rest : Replaces s t) : Replaces (c :: s) (c :: t)

/-! ## The table of references -/

theorem exists_cons_of_mem_basicReferences {entry : List Char × Char}
    (known : entry ∈ basicReferences) : ∃ name, entry.1 = '&' :: name :=
  List.head?_eq_some_iff.mp (head?_of_mem_basicReferences entry known)

/-- No reference starts another one. -/
theorem basicReferences_apart :
    ∀ entry ∈ basicReferences, ∀ other ∈ basicReferences, entry.1 <+: other.1 → entry = other := by
  decide

/-- The reference that a text starts with is found, whatever follows it. -/
theorem referenceAt?_append_of_mem {entry : List Char × Char} (known : entry ∈ basicReferences)
    (s : List Char) : referenceAt? basicReferences (entry.1 ++ s) = some entry := by
  cases found : referenceAt? basicReferences (entry.1 ++ s) with
  | none =>
      have starts := List.find?_eq_none.mp found entry known
      simp at starts
  | some other =>
      have member : other ∈ basicReferences := List.mem_of_find?_eq_some found
      have starts : other.1 <+: entry.1 ++ s := by
        simpa using List.find?_some found
      -- Two references that the same text starts with start one another.
      rcases List.prefix_or_prefix_of_prefix starts (List.prefix_append entry.1 s) with h | h
      · rw [basicReferences_apart other member entry known h]
      · rw [basicReferences_apart entry known other member h]

theorem decodeBasic_reference {name : List Char} (known : (name, c) ∈ basicReferences)
    (s : List Char) : decodeBasic (name ++ s) = c :: decodeBasic s := by
  have found := referenceAt?_append_of_mem known s
  obtain ⟨rest, marked⟩ := exists_cons_of_mem_basicReferences known
  dsimp only at found marked
  rw [marked, List.cons_append] at found ⊢
  rw [decodeBasic, decodeFrom, found]
  dsimp only
  rw [decodeFrom_eq_decodeBasic_drop, List.length_cons, Nat.add_sub_cancel, List.drop_left]

theorem decodeBasic_cons (none : ∀ entry ∈ basicReferences, ¬ entry.1 <+: c :: s) :
    decodeBasic (c :: s) = c :: decodeBasic s := by
  have missing : referenceAt? basicReferences (c :: s) = Option.none :=
    List.find?_eq_none.mpr fun entry known => by simpa using none entry known
  rw [decodeBasic, decodeFrom, missing]
  rfl

/-! ## Decoding replaces -/

theorem Replaces.decodeBasic_eq (h : Replaces s t) : decodeBasic s = t := by
  induction h with
  | nil => rfl
  | reference known _ ih => rw [decodeBasic_reference known, ih]
  | other none _ ih => rw [decodeBasic_cons none, ih]

theorem replaces_decodeBasic (s : List Char) : Replaces s (decodeBasic s) := by
  match s with
  | [] => exact .nil
  | c :: s =>
      by_cases starts : ∃ entry ∈ basicReferences, entry.1 <+: c :: s
      · obtain ⟨⟨name, d⟩, known, t, whole⟩ := starts
        obtain ⟨rest, marked⟩ := exists_cons_of_mem_basicReferences known
        have shorter : t.length < (c :: s).length := by
          dsimp only at marked whole
          rw [← whole, marked, List.cons_append, List.length_cons, List.length_append]
          omega
        rw [← whole, decodeBasic_reference known]
        exact .reference known (replaces_decodeBasic t)
      · have none : ∀ entry ∈ basicReferences, ¬ entry.1 <+: c :: s :=
          fun entry known h => starts ⟨entry, known, h⟩
        rw [decodeBasic_cons none]
        exact .other none (replaces_decodeBasic s)
termination_by s.length
decreasing_by
  · exact shorter
  · exact Nat.lt_succ_self s.length

theorem replaces_iff : Replaces s t ↔ decodeBasic s = t := by
  constructor
  · exact Replaces.decodeBasic_eq
  · rintro rfl
    exact replaces_decodeBasic s

/-- A text without references stands for itself. -/
theorem replaces_self (h : ∀ entry ∈ basicReferences, ¬ entry.1 <:+: s) : Replaces s s := by
  induction s with
  | nil => exact .nil
  | cons c s ih =>
      refine .other (fun entry known starts => h entry known starts.isInfix) (ih ?_)
      exact fun entry known inside => h entry known (List.infix_cons inside)

/-- What is escaped is read back: a character that has a reference by it, and any other one as no
    mark. -/
theorem replaces_escapeBasic (s : List Char) : Replaces (escapeBasic s) s := by
  induction s with
  | nil => exact .nil
  | cons c s ih =>
      rw [escapeBasic, List.flatMap_cons, ← escapeBasic]
      cases found : basicReferences.find? fun entry => entry.2 == c with
      | some entry =>
          obtain ⟨name, d⟩ := entry
          have same : d = c := by simpa using List.find?_some found
          exact .reference (same ▸ List.mem_of_find?_eq_some found) ih
      | none =>
          refine .other (fun entry known starts => ?_) ih
          obtain ⟨name, marked⟩ := exists_cons_of_mem_basicReferences known
          rw [marked] at starts
          obtain ⟨rfl, -⟩ := List.cons_prefix_cons.mp starts
          exact absurd found (by decide)

end Text

open Text in
/-- Decoding undoes escaping. It replaces the references that are met from left to right and nothing
    else, so it leaves a text without references as it is, and options may skip it for a text without
    the mark of references. And it goes with joining wherever no reference goes on with the first
    character of the second text. -/
theorem decodeBasic_replaces :
    (∀ s, decodeBasic (escapeBasic s) = s) ∧
    (∀ s t, Replaces s t ↔ decodeBasic s = t) ∧
    (∀ s, (∀ entry ∈ basicReferences, ¬ entry.1 <:+: s) → decodeBasic s = s) ∧
    (∀ s, '&' ∉ s → decodeBasic s = s) ∧
    (∀ o : Options, (∀ s isValue, o.decodeReferences s isValue = decodeBasic s) →
      ∀ mode s, mode ≠ .rawText → mode ≠ .cData → o.decode mode s = decodeBasic s) ∧
    ∀ s t, (∀ c ∈ t.head?, ∀ entry ∈ basicReferences, c ∉ entry.1.tail) →
      decodeBasic (s ++ t) = decodeBasic s ++ decodeBasic t := by
  refine ⟨fun s => (replaces_escapeBasic s).decodeBasic_eq, fun s t => replaces_iff,
    fun s none => (replaces_self none).decodeBasic_eq, fun s none => decodeBasic_of_not_mem none,
    fun o basic mode s hr hc => Options.decode_of_basic basic hr hc s,
    fun s t seam => decodeBasic_append s fun c hc => ?_⟩
  simpa [breaksReference] using seam c hc

open Text in
/-- A reference that does not end is left as it is, another one may follow the start of one, and the
    default options read a value as it is decoded, marked or not. -/
theorem decodeBasic_replaces_unended :
    ((∀ entry ∈ basicReferences, ¬ entry.1 <:+: "&lt &amp".toList) ∧
      decodeBasic "&lt &amp".toList = "&lt &amp".toList) ∧
    ('&' ∉ "lt;".toList ∧ decodeBasic "lt;".toList = "lt;".toList) ∧
    Options.base.decode .attributeValue "&amp;lt;".toList = decodeBasic "&amp;lt;".toList ∧
    (∀ c ∈ "&amp;lt;".toList.head?, ∀ entry ∈ basicReferences, c ∉ entry.1.tail) ∧
    decodeBasic ("&am".toList ++ "&amp;lt;".toList) = "&am&lt;".toList := by
  obtain ⟨-, -, plain, unmarked, read, joins⟩ := decodeBasic_replaces
  have ends : ∀ entry ∈ basicReferences, ';' ∈ entry.1 := by decide
  have none : ∀ entry ∈ basicReferences, ¬ entry.1 <:+: "&lt &amp".toList :=
    fun entry known inside => absurd (inside.subset (ends entry known)) (by decide)
  have mark : '&' ∉ "lt;".toList := by decide
  have seam : ∀ c ∈ "&amp;lt;".toList.head?, ∀ entry ∈ basicReferences, c ∉ entry.1.tail := by
    intro c first
    obtain rfl : '&' = c := Option.some.inj first
    decide
  refine ⟨⟨none, plain _ none⟩, ⟨mark, unmarked _ mark⟩, ?_, seam, ?_⟩
  · exact read Options.base (fun _ _ => rfl) .attributeValue _ (by decide) (by decide)
  · rw [joins _ _ seam]
    decide

end Stencil
