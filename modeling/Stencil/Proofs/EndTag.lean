import Stencil.Proofs.Reports
import Stencil.Proofs.Spans.Tag

/-! # End tags

When a text starts with the end tag of an element, said in two ways: by comparing it with the tag
of the element character by character, and by reading the name in it and comparing the names. Both
agree on the tags that elements have, which are not empty and hold none of the characters that end
a name.
-/

namespace Stencil

namespace Text

theorem toNat_toLower (c : Char) :
    c.toLower.toNat = if 65 ≤ c.toNat ∧ c.toNat ≤ 90 then c.toNat + 32 else c.toNat := by
  unfold Char.toLower
  split
  · next upper =>
    have lo : 65 ≤ c.toNat := upper.1
    have hi : c.toNat ≤ 90 := upper.2
    rw [if_pos ⟨lo, hi⟩]
    change (c.val + 32).toNat = c.val.toNat + 32
    change c.val.toNat ≤ 90 at hi
    rw [UInt32.toNat_add]
    change (c.val.toNat + 32) % 4294967296 = _
    omega
  · next other =>
    rw [if_neg]
    intro h
    exact other ⟨h.1, h.2⟩

theorem length_of_sameIgnoringCase {s t : List Char} (h : sameIgnoringCase s t = true) :
    s.length = t.length := by
  have := congrArg List.length (beq_iff_eq.mp h)
  simpa using this

/-- A run of characters is determined by where it stops. -/
theorem takeWhile_eq_take {p : Char → Bool} {s : List Char} {n : Nat}
    (all : ∀ c ∈ s.take n, p c = true) (stop : (s.drop n).head?.all (fun c => !p c) = true) :
    s.takeWhile p = s.take n := by
  induction s generalizing n with
  | nil => rw [List.takeWhile_nil, List.take_nil]
  | cons c s ih =>
      cases n with
      | zero =>
          have fails : p c = false := by simpa using stop
          rw [List.takeWhile_cons, fails]
          rfl
      | succ n =>
          have holds : p c = true := all c (by simp)
          rw [List.takeWhile_cons, holds, List.take_succ_cons]
          have rest := ih (n := n) (fun d hd => all d (by simp [hd])) (by simpa using stop)
          exact congrArg (c :: ·) rest

theorem head?_dropWhile_all {p : Char → Bool} (s : List Char) :
    (s.drop (s.takeWhile p).length).head?.all (fun c => !p c) = true := by
  induction s with
  | nil => rfl
  | cons c s ih =>
      rw [List.takeWhile_cons]
      split
      · exact ih
      · next fails => simpa using fails

end Text

namespace Tag

/-- The tags of elements: there is a name, and none of its characters ends a name. -/
def WellNamed (tag : List Char) : Prop :=
  tag ≠ [] ∧ ∀ c ∈ tag, isBreak c = false

/-- `s` is an end tag, whole or cut off, whose name is `tag` up to the case of ASCII letters. -/
def IsEndTagOf (tag s : List Char) : Prop :=
  ['<', '/'] <+: s ∧ Text.sameIgnoringCase (nameAt .closing s) tag = true

instance (tag s : List Char) : Decidable (IsEndTagOf tag s) :=
  decidable_of_iff (['<', '/'].isPrefixOf s = true ∧ Text.sameIgnoringCase (nameAt .closing s) tag)
    (and_congr List.isPrefixOf_iff_prefix Iff.rfl)

theorem isBreak_iff (c : Char) : isBreak c = true ↔ c.toNat ∈ [47, 62, 9, 10, 12, 13, 32] := by
  simp only [isBreak, Text.isBlank, Bool.or_eq_true, beq_iff_eq, Char.ext_iff, ← UInt32.toNat_inj]
  simp [or_assoc]

/-- No letter ends a name, in either case. -/
theorem isBreak_toLower (c : Char) : isBreak c.toLower = isBreak c := by
  rw [Bool.eq_iff_iff, isBreak_iff, isBreak_iff, Text.toNat_toLower]
  simp only [List.mem_cons, List.not_mem_nil, or_false]
  split <;> omega

theorem not_isBreak_of_sameIgnoringCase {s tag : List Char}
    (h : Text.sameIgnoringCase s tag = true) (named : ∀ c ∈ tag, isBreak c = false) :
    ∀ c ∈ s, isBreak c = false := by
  intro c member
  have lower : c.toLower ∈ tag.map Char.toLower := by
    rw [← beq_iff_eq.mp h]
    exact List.mem_map_of_mem member
  obtain ⟨d, hd, same⟩ := List.mem_map.mp lower
  rw [← isBreak_toLower, ← same, isBreak_toLower]
  exact named d hd

/-- A text starts with the end tag of an element exactly when the name read from it is the tag of
    the element, up to case. -/
theorem startsEndTag_iff {tag s : List Char} (named : WellNamed tag) :
    startsEndTag tag s = true ↔ IsEndTagOf tag s := by
  unfold startsEndTag
  split
  · next t =>
    have opened : ['<', '/'] <+: '<' :: '/' :: t := ⟨t, rfl⟩
    have name : nameAt .closing ('<' :: '/' :: t) = t.takeWhile fun c => !isBreak c := rfl
    rw [IsEndTagOf, name, Bool.and_eq_true]
    constructor
    · intro ⟨same, stop⟩
      refine ⟨opened, ?_⟩
      rw [Text.takeWhile_eq_take (n := tag.length)]
      · exact same
      · intro c hc
        rw [not_isBreak_of_sameIgnoringCase same named.2 c hc]
        rfl
      · simpa using stop
    · intro ⟨_, same⟩
      have width := Text.length_of_sameIgnoringCase same
      have stop := Text.head?_dropWhile_all (p := fun c => !isBreak c) t
      rw [width] at stop
      have cut : t.take tag.length = t.takeWhile fun c => !isBreak c := by
        rw [← width]
        exact Text.take_length_takeWhile _ t
      exact ⟨cut ▸ same, by simpa using stop⟩
  · next other =>
    constructor
    · intro h
      cases h
    · intro ⟨⟨t, ht⟩, _⟩
      exact absurd ht.symm (other t)

/-- The text of an end tag is its mark, its name and what is read after that. -/
theorem textTo_read_closing (o : Options) (vPre : Bool) {c : Cursor}
    (opened : ['<', '/'] <+: c.rest) :
    c.textTo (read o .closing vPre c).cursor =
      '<' :: '/' :: (nameAt .closing c.rest ++
        (c.skip (markLength .closing + (nameAt .closing c.rest).length)).textTo
          (read o .closing vPre c).cursor) := by
  obtain ⟨t, rest⟩ := opened
  have start : c.rest.take (markLength .closing + (nameAt .closing c.rest).length) =
      '<' :: '/' :: nameAt .closing c.rest := by
    rw [← rest]
    simp [nameAt, markLength, Nat.add_comm 2, Text.take_length_takeWhile]
  rw [Cursor.textTo_append (c.reaches_skip _) (reaches_read o .closing vPre c),
    Cursor.textTo_skip, start]
  rfl

/-- Reading an end tag takes in all of its name, and nothing that could be added to it. -/
theorem isEndTagOf_textTo (o : Options) (vPre : Bool) {tag : List Char} {c : Cursor}
    (h : IsEndTagOf tag c.rest) :
    IsEndTagOf tag (c.textTo (read o .closing vPre c).cursor) := by
  obtain ⟨opened, same⟩ := h
  have text := textTo_read_closing o vPre opened
  obtain ⟨t, rest⟩ := opened
  have name : nameAt .closing c.rest = t.takeWhile fun d => !isBreak d := by
    rw [← rest]
    rfl
  have whole := reaches_read o .closing vPre c
  generalize more : (c.skip (markLength .closing + (nameAt .closing c.rest).length)).textTo
    (read o .closing vPre c).cursor = u at text
  have after : t.drop (nameAt .closing c.rest).length =
      u ++ (read o .closing vPre c).cursor.rest := by
    have split := whole.rest_eq
    rw [more, Cursor.rest_skip, name, ← List.drop_drop, ← rest] at split
    rw [name]
    exact split
  rw [text]
  refine ⟨⟨nameAt .closing c.rest ++ u, rfl⟩, ?_⟩
  have again : nameAt .closing ('<' :: '/' :: (nameAt .closing c.rest ++ u)) =
      nameAt .closing c.rest := by
    change ((nameAt .closing c.rest ++ u).takeWhile fun d => !isBreak d) = _
    rw [Text.takeWhile_eq_take (n := (nameAt .closing c.rest).length), List.take_left]
    · intro d hd
      rw [List.take_left, name] at hd
      exact List.all_eq_true.mp List.all_takeWhile d hd
    · -- what follows the name in the tag follows it in the template
      rw [List.drop_left]
      have stop := Text.head?_dropWhile_all (p := fun d => !isBreak d) t
      rw [← name, after] at stop
      cases u with
      | nil => rfl
      | cons d u => exact stop
  rw [again]
  exact same

end Tag

end Stencil
