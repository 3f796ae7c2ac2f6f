import Stencil.Proofs.Bytewise.Comment
import Stencil.Proofs.Search

/-! # Where a comment ends, and what is reported about it

A comment ends at the first of the two closing marks, wherever that stands: the search begins at the
opener, whose hyphens may belong to the mark. What is reported follows from the place of the mark
and from the openers before it. This holds of comments as they are read, and of the scanner that
walks over them by bytes.
-/

namespace Stencil

namespace Text

variable {p : List Char → Bool} {s : List Char}

/-- A search that finds nothing has tried every place. -/
theorem eq_false_of_seek_eq_none (h : seek p s = none) (n : Nat) : p (s.drop n) = false := by
  rcases Nat.lt_or_ge n s.length with inside | behind
  · exact eq_false_before_seek (by rwa [h])
  · rw [List.drop_eq_nil_of_le behind]
    induction s with
    | nil => simpa [seek] using h
    | cons c s ih =>
        rw [seek] at h
        split at h
        · cases h
        · exact ih (Option.map_eq_none_iff.mp h) (Nat.le_of_succ_le behind)

/-- A search stops at the first place where the test holds. -/
theorem seek_eq_some {n : Nat} (holds : p (s.drop n) = true)
    (first : ∀ m < n, p (s.drop m) = false) : seek p s = some n := by
  cases found : seek p s with
  | none => exact absurd holds (by simp [eq_false_of_seek_eq_none found n])
  | some m =>
      rcases Nat.lt_trichotomy m n with before | rfl | after
      · exact absurd (seek_holds found) (by simp [first m before])
      · rfl
      · have passed : p (s.drop n) = false := eq_false_before_seek (by rwa [found])
        exact absurd holds (by simp [passed])

end Text

namespace Comment

variable {s mark : List Char} {i : Nat}

/-- The first closing mark in `s` is `mark`, at place `i`. -/
structure ClosesAt (s : List Char) (i : Nat) (mark : List Char) : Prop where
  known : mark ∈ closers
  here : mark <+: s.drop i
  first : ∀ j < i, ∀ m ∈ closers, ¬m <+: s.drop j

/-- There is no closing mark in `s`. -/
def NeverCloses (s : List Char) : Prop :=
  ∀ j, ∀ m ∈ closers, ¬m <+: s.drop j

/-- The places of the openers inside of a comment that is closed at place `i`, each once and in
    order. Its own opener is not one of them, and neither is an opener that ends at place `i`. -/
structure NestedIn (s : List Char) (i : Nat) (places : List Nat) : Prop where
  ordered : places.Pairwise (· < ·)
  mem_iff : ∀ j, j ∈ places ↔ 1 ≤ j ∧ opener <+: (s.take i).drop j ∧ j + 4 < i

/-! ## Closing marks -/

theorem closerAt?_eq_some_iff : closerAt? s = some mark ↔ mark ∈ closers ∧ mark <+: s := by
  refine ⟨fun found => (prefix_of_closerAt? found).symm, ?_⟩
  rintro ⟨known, t, rfl⟩
  simp only [closers, List.mem_cons, List.not_mem_nil, or_false] at known
  rcases known with rfl | rfl
  · exact closerAt?_hyphens ('>' :: t)
  · exact closerAt?_hyphens ('!' :: '>' :: t)

theorem isSome_closerAt?_eq_false :
    (closerAt? s).isSome = false ↔ ∀ m ∈ closers, ¬m <+: s := by
  rw [Option.isSome_eq_false_iff, Option.isNone_iff_eq_none, Option.eq_none_iff_forall_ne_some]
  simp only [ne_eq, closerAt?_eq_some_iff, not_and]

theorem ClosesAt.seek_eq (h : ClosesAt s i mark) :
    Text.seek (fun t => (closerAt? t).isSome) s = some i := by
  apply Text.seek_eq_some
  · rw [closerAt?_eq_some_iff.mpr ⟨h.known, h.here⟩, Option.isSome_some]
  · exact fun j before => isSome_closerAt?_eq_false.mpr (h.first j before)

theorem NeverCloses.seek_eq (h : NeverCloses s) :
    Text.seek (fun t => (closerAt? t).isSome) s = none := by
  cases found : Text.seek (fun t => (closerAt? t).isSome) s with
  | none => rfl
  | some i =>
      have holds := Text.seek_holds found
      exact absurd holds (by simp [isSome_closerAt?_eq_false.mpr (h i)])

/-! ## Openers -/

/-- The openers that are found from place `i` on, in the text that starts there. -/
theorem mem_openersFrom {i limit j : Nat} :
    j ∈ openersFrom i limit s ↔ i ≤ j ∧ opener <+: s.drop (j - i) ∧ j + 4 < limit := by
  induction s generalizing i with
  | nil => simp [openersFrom, opener]
  | cons c s ih =>
      have later : j ∈ openersFrom (i + 1) limit s ↔
          i < j ∧ opener <+: (c :: s).drop (j - i) ∧ j + 4 < limit := by
        rw [ih, Nat.succ_le_iff]
        refine and_congr_right fun less => ?_
        rw [show j - i = j - (i + 1) + 1 by omega, List.drop_succ_cons]
      have here : (opener.isPrefixOf (c :: s) && decide (i + opener.length < limit)) = true ↔
          opener <+: (c :: s).drop (i - i) ∧ i + 4 < limit := by
        rw [Nat.sub_self, List.drop_zero, Bool.and_eq_true, List.isPrefixOf_iff_prefix,
          decide_eq_true_iff]
        rfl
      rw [openersFrom]
      split
      · next found =>
        rw [List.mem_cons, later]
        constructor
        · rintro (rfl | ⟨less, rest⟩)
          · exact ⟨Nat.le_refl _, here.mp found⟩
          · exact ⟨Nat.le_of_lt less, rest⟩
        · rintro ⟨le, rest⟩
          exact (Nat.eq_or_lt_of_le le).imp Eq.symm (⟨·, rest⟩)
      · next other =>
        rw [later]
        constructor
        · rintro ⟨less, rest⟩
          exact ⟨Nat.le_of_lt less, rest⟩
        · rintro ⟨le, rest⟩
          rcases Nat.eq_or_lt_of_le le with rfl | less
          · exact absurd (here.mpr rest) other
          · exact ⟨less, rest⟩

theorem openersFrom_ordered (i limit : Nat) (s : List Char) :
    (openersFrom i limit s).Pairwise (· < ·) := by
  induction s generalizing i with
  | nil => exact .nil
  | cons c s ih =>
      rw [openersFrom]
      split
      · exact .cons (fun j later => (mem_openersFrom.mp later).1) (ih (i + 1))
      · exact ih (i + 1)

theorem nestedIn_openersFrom (s : List Char) (i : Nat) :
    NestedIn s i (openersFrom 1 i ((s.take i).drop 1)) where
  ordered := openersFrom_ordered 1 i _
  mem_iff j := by
    rw [mem_openersFrom]
    refine and_congr_right fun some => ?_
    rw [List.drop_drop, Nat.add_sub_cancel' some]

/-- The four characters of a closing mark are those of the one that is an error. -/
theorem length_closer (known : mark ∈ closers) : mark.length = 4 ↔ mark = "--!>".toList := by
  simp only [closers, List.mem_cons, List.not_mem_nil, or_false] at known
  rcases known with rfl | rfl <;> decide

end Comment

open Comment in
/-- What is read of a comment, from its opener on, and what is reported about it. Without a closing
    mark it is all that is left, and that is reported at the end. Otherwise it ends behind the first
    closing mark, and its content is what stands between the opener and that mark. Reported are, in
    this order: at the start of the comment, that the mark starts inside of the opener, and that it
    is the wrong one; and each further opener in the comment, at its own place. Scanning by bytes
    comes to the same. -/
theorem read_comment (c : Cursor) (starts : opener <+: c.rest) :
    (NeverCloses c.rest →
      let stop := c.skip c.rest.length
      Comment.read c =
        ⟨⟨c.rest.drop 4, c.locationTo stop⟩, stop, .error .eofInComment stop.position⟩) ∧
    (∀ i mark, ClosesAt c.rest i mark → ∃ nested, NestedIn c.rest i nested ∧
      let stop := c.skip (i + mark.length)
      Comment.read c =
        ⟨⟨(c.rest.take i).drop 4, c.locationTo stop⟩, stop, .ofErrors (
          (if i ≤ 3 then [.at .abruptClosingOfEmptyComment c.position] else []) ++
          (if mark = "--!>".toList then [.at .incorrectlyClosedComment c.position] else []) ++
          nested.map fun j => .at .nestedComment (c.ahead j))⟩) ∧
    ∀ source, c.Within source → (Scanner.comment source).Performs c (Comment.read c) := by
  refine ⟨fun never => ?_, fun i mark closes => ?_, fun source within => ?_⟩
  · simp only [Comment.read, never.seek_eq]
  · refine ⟨_, nestedIn_openersFrom c.rest i, ?_⟩
    have closer : closerAt? (c.rest.drop i) = some mark :=
      closerAt?_eq_some_iff.mpr ⟨closes.known, closes.here⟩
    simp only [Comment.read, closes.seek_eq, closer, Option.getD_some, closedErrors,
      length_closer closes.known]
  · exact Scanner.comment_performs within starts

open Comment in
/-- A comment with two more openers, of which one ends where the closing mark starts, and with a
    character of two bytes before them. -/
theorem read_comment_nested :
    let source := "<!--é<!--<!----!>-->".toList
    let c := Cursor.ofText source
    opener <+: c.rest ∧ ClosesAt c.rest 13 "--!>".toList ∧ NestedIn c.rest 13 [5] ∧
      (Comment.read c).log.errors =
        [.at .incorrectlyClosedComment ⟨0, 1, 1⟩, .at .nestedComment ⟨6, 1, 6⟩] ∧
      (Scanner.comment source).Performs c (Comment.read c) := by
  intro source c
  have starts : opener <+: c.rest := by decide
  have closes : ClosesAt c.rest 13 "--!>".toList := ⟨by decide, by decide, by decide⟩
  have within : c.Within source := ⟨.refl _, by decide⟩
  obtain ⟨_, closed, performs⟩ := read_comment c starts
  obtain ⟨nested, places, reads⟩ := closed 13 _ closes
  have one : nested.length = 1 := by
    have two : (Comment.read c).log.errors.length = 2 := by decide +kernel
    rw [reads] at two
    simpa [Log.ofErrors] using two
  obtain ⟨j, rfl⟩ := List.length_eq_one_iff.mp one
  have first : 5 ∈ [j] := (places.mem_iff 5).mpr (by decide)
  obtain rfl : 5 = j := List.mem_singleton.mp first
  exact ⟨starts, closes, places, by decide +kernel, performs source within⟩

end Stencil
