import Stencil.Proofs.Draft
import Stencil.Proofs.Search

/-! # Reading back what was printed

Each reader, put before the printed form of a draft and something behind it, takes in the printed
form and nothing else, reports nothing, and says what the draft says.
-/

namespace Stencil

/-- The options that know no platform and keep white space. -/
def Options.preserving : Options :=
  { Options.base with whitespace := .preserve }

theorem Options.decode_of_not_mem (o : Options) (mode : TextMode) {s : List Char}
    (h : '&' ∉ s) : o.decode mode s = s := by
  have none : s.contains '&' = false := by simpa using h
  cases mode <;> simp only [decode, none, Bool.false_eq_true, if_false]

/-! ## Texts -/

namespace Draft

/-- A run of text ends before `tail`. -/
def Stops (tail : List Char) : Prop :=
  tail = [] ∨ TextNode.endsAt .preserving .data tail = true

theorem Stops.mark (tail : List Char) : Stops ('<' :: tail) := by
  right
  rfl

/-- A draft that is no text starts with a mark. -/
theorem Stops.printAll {ds : List Draft} {tail : List Char} (h : Stops tail)
    (other : ds.head?.any isText = false) : Stops (Draft.printAll ds ++ tail) := by
  match ds, other with
  | [], _ => exact h
  | .element .. :: _, _ | .comment _ :: _, _ | .interpolation _ :: _, _ =>
      right
      rw [Draft.printAll, Draft.print]
      rfl

theorem isPlainText_iff {s : List Char} : isPlainText s = true ↔
    Text.isBlankOnly s = false ∧ ∀ c ∈ s, c ≠ '<' ∧ c ≠ '&' ∧ c ≠ '\x7b' := by
  simp [isPlainText, and_assoc]

end Draft

namespace TextNode

theorem lengthAt_plain {s tail : List Char} (plain : Draft.isPlainText s = true)
    (stops : Draft.Stops tail) : lengthAt .preserving .data (s ++ tail) = s.length := by
  obtain ⟨ink, free⟩ := Draft.isPlainText_iff.mp plain
  cases s with
  | nil => cases ink
  | cons c s =>
      have inside : ∀ x y, s = x ++ y → y ≠ [] →
          endsAt .preserving .data (y ++ tail) = false := by
        intro x y split some
        cases y with
        | nil => exact absurd rfl some
        | cons d y =>
            have free := free d (by simp [split])
            simp [endsAt, Options.preserving, Options.base, List.isPrefixOf, free.1, Ne.symm free.2.2]
      rw [List.cons_append, lengthAt, Text.seek_append inside]
      rcases stops with rfl | ends
      · simp [Text.seek, endsAt, Options.preserving, Options.base]
      · rw [Text.seek_of_holds ends]
        simp

theorem read_plain {s tail : List Char} {c : Cursor} (text : c.rest = s ++ tail)
    (plain : Draft.isPlainText s = true) (stops : Draft.Stops tail) :
    (read .preserving .data c).cursor.rest = tail ∧
      (read .preserving .data c).value.content = s := by
  have length := lengthAt_plain plain stops
  have free := (Draft.isPlainText_iff.mp plain).2
  have quiet : '&' ∉ s := fun h => (free '&' h).2.1 rfl
  simp [read, text, length, Options.decode_of_not_mem _ _ quiet]

end TextNode

/-! ## Interpolations -/

/-- Spaces put around a text that starts and ends without one are what trimming takes away. -/
theorem Text.trim_spaced {s : List Char} (start : (s.head?.any fun c => !isSpace c) = true)
    (stop : (s.getLast?.any fun c => !isSpace c) = true) : trim (' ' :: s ++ [' ']) = s := by
  have first : trimStart (' ' :: s ++ [' ']) = s ++ [' '] := by
    cases s with
    | nil => cases start
    | cons c s =>
        have ink : isSpace c = false := by simpa using start
        simp [trimStart, ink, show isSpace ' ' = true from rfl]
  have last : trimEnd (s ++ [' ']) = s := by
    rw [← List.head?_reverse] at stop
    rw [trimEnd, List.reverse_append, List.reverse_singleton, List.singleton_append,
      List.dropWhile_cons_of_pos rfl]
    cases back : s.reverse with
    | nil =>
        rw [back] at stop
        cases stop
    | cons c t =>
        rw [back] at stop
        have ink : isSpace c = false := by simpa using stop
        rw [List.dropWhile_cons_of_neg (by simp [ink]), ← back, List.reverse_reverse]
  rw [trim, first, last]

namespace Interpolation

theorem isPlainExpression_iff {s : List Char} : Draft.isPlainExpression s = true ↔
    (s.head?.any fun c => !Text.isSpace c) = true ∧
      (s.getLast?.any fun c => !Text.isSpace c) = true ∧ ∀ c ∈ s, c ≠ '\x7d' ∧ c ≠ '&' := by
  simp only [Draft.isPlainExpression, Bool.and_eq_true, List.all_eq_true, and_assoc]
  simp

theorem read?_plain {s tail : List Char} {c : Cursor}
    (text : c.rest = (Draft.interpolation s).print ++ tail)
    (plain : Draft.isPlainExpression s = true) :
    ∃ r, read? .preserving .data c = some r ∧ r.cursor.rest = tail ∧
      r.value.content.content = s ∧ r.value.content.isStatic = false ∧ r.log = .empty := by
  obtain ⟨start, stop, free⟩ := isPlainExpression_iff.mp plain
  have inner : (c.skip 2).rest = (' ' :: s ++ [' ']) ++ ("\x7d\x7d".toList ++ tail) := by
    simp [text, Draft.print]
  have inside : ∀ x y, ' ' :: s ++ [' '] = x ++ y → y ≠ [] →
      "\x7d\x7d".toList.isPrefixOf (y ++ ("\x7d\x7d".toList ++ tail)) = false := by
    intro x y split more
    cases y with
    | nil => exact absurd rfl more
    | cons d y =>
        have member : d ∈ ' ' :: s ++ [' '] := by simp [split]
        have other : d ≠ '\x7d' := by
          simp only [List.cons_append, List.mem_cons, List.mem_append, List.not_mem_nil,
            or_false] at member
          rcases member with rfl | member | rfl
          · decide
          · exact (free d member).1
          · decide
        simp [List.isPrefixOf, Ne.symm other]
  have found : Text.find "\x7d\x7d".toList (c.skip 2).rest = some (s.length + 2) := by
    rw [inner, Text.find, Text.seek_append inside, Text.seek_of_holds (by simp)]
    simp
  have raw : (c.skip 2).rest.take (s.length + 2) = ' ' :: s ++ [' '] := by
    rw [inner]
    exact List.take_left' (by simp)
  have quiet : '&' ∉ ' ' :: s ++ [' '] := by
    intro member
    simp only [List.cons_append, List.mem_cons, List.mem_append, List.not_mem_nil,
      or_false] at member
    rcases member with same | member | same
    · exact absurd same (by decide)
    · exact (free _ member).2 rfl
    · exact absurd same (by decide)
  unfold read?
  dsimp only
  rw [show (Options.preserving.openDelimiter).length = 2 from rfl,
    show Options.preserving.closeDelimiter = "\x7d\x7d".toList from rfl, found]
  refine ⟨_, rfl, ?_, ?_, rfl, rfl⟩
  · dsimp only
    rw [Cursor.rest_skip, inner, ← List.append_assoc]
    exact List.drop_left' (by simp)
  · dsimp only
    rw [raw, Options.decode_of_not_mem _ _ quiet]
    exact Text.trim_spaced start stop

end Interpolation

/-! ## Comments -/

namespace Comment

theorem isPlainComment_iff {s : List Char} : Draft.isPlainComment s = true ↔
    ∀ c ∈ s, c ≠ '-' ∧ c ≠ '>' ∧ c ≠ '!' := by
  simp [Draft.isPlainComment, and_assoc]

theorem closerAt?_of_ne {c : Char} {s : List Char} (h : c ≠ '-') : closerAt? (c :: s) = none := by
  simp [closerAt?, closers, List.isPrefixOf, Ne.symm h]

/-- The first closing mark is the one behind the content. -/
theorem seek_closer {s : List Char} (plain : ∀ c ∈ s, c ≠ '-' ∧ c ≠ '>' ∧ c ≠ '!')
    (tail : List Char) :
    Text.seek (fun s => (closerAt? s).isSome) (opener ++ (s ++ ("-->".toList ++ tail))) =
      some (s.length + 4) := by
  have content : Text.seek (fun s => (closerAt? s).isSome) (s ++ ("-->".toList ++ tail)) =
      some s.length := by
    rw [Text.seek_append, Text.seek_of_holds]
    · simp
    · simp [closerAt?, closers]
    · intro x y split more
      cases y with
      | nil => exact absurd rfl more
      | cons d y =>
          rw [List.cons_append, closerAt?_of_ne (plain d (by simp [split])).1]
          rfl
  -- the search starts at the opener, whose own hyphens do not close the comment
  have hyphens : closerAt? ('-' :: (s ++ ("-->".toList ++ tail))) = none ∧
      closerAt? ('-' :: '-' :: (s ++ ("-->".toList ++ tail))) = none := by
    cases s with
    | nil => simp [closerAt?, closers, List.isPrefixOf]
    | cons d s =>
        obtain ⟨h1, h2, h3⟩ := plain d List.mem_cons_self
        simp [closerAt?, closers, List.isPrefixOf, Ne.symm h1, Ne.symm h2, Ne.symm h3]
  change Text.seek _ ('<' :: '!' :: '-' :: '-' :: (s ++ ("-->".toList ++ tail))) = _
  have marks : closerAt? ('<' :: '!' :: '-' :: '-' :: (s ++ ("-->".toList ++ tail))) = none ∧
      closerAt? ('!' :: '-' :: '-' :: (s ++ ("-->".toList ++ tail))) = none :=
    ⟨closerAt?_of_ne (by decide), closerAt?_of_ne (by decide)⟩
  simp only [Text.seek, marks, hyphens, content, Option.isSome_none, Bool.false_eq_true, if_false,
    Option.map_some]

theorem openersFrom_eq_nil {s : List Char} (h : '!' ∉ s) (i limit : Nat) :
    openersFrom i limit s = [] := by
  induction s generalizing i with
  | nil => rfl
  | cons c s ih =>
      have other : opener.isPrefixOf (c :: s) = false := by
        cases s with
        | nil => simp [opener, List.isPrefixOf]
        | cons d s =>
            have other : '!' ≠ d := by
              rintro rfl
              exact h (by simp)
            simp [opener, List.isPrefixOf, other]
      rw [openersFrom, other, Bool.false_and, if_neg Bool.false_ne_true]
      exact ih (fun member => h (List.mem_cons_of_mem c member)) (i + 1)

theorem read_plain {s tail : List Char} {c : Cursor}
    (text : c.rest = (Draft.comment s).print ++ tail) (plain : Draft.isPlainComment s = true) :
    (read c).cursor.rest = tail ∧ (read c).value.content = s ∧ (read c).log = .empty := by
  have plain := isPlainComment_iff.mp plain
  have rest : c.rest = (opener ++ s) ++ ("-->".toList ++ tail) := by
    rw [text, Draft.print]
    simp only [opener, List.append_assoc]
  have found : Text.seek (fun s => (closerAt? s).isSome) c.rest = some (s.length + 4) := by
    rw [rest, List.append_assoc]
    exact seek_closer plain tail
  have length : (opener ++ s).length = s.length + 4 := by
    rw [List.length_append]
    exact Nat.add_comm _ _
  have before : c.rest.take (s.length + 4) = opener ++ s := by
    rw [rest]
    exact List.take_left' length
  have closer : closerAt? (c.rest.drop (s.length + 4)) = some "-->".toList := by
    rw [rest, List.drop_left' length]
    simp [closerAt?, closers]
  have quiet : openersFrom 1 (s.length + 4) ((opener ++ s).drop 1) = [] := by
    change openersFrom 1 (s.length + 4) ('!' :: ('-' :: '-' :: s)) = []
    have inner : '!' ∉ '-' :: '-' :: s := by
      intro member
      simp only [List.mem_cons, Char.reduceEq, false_or] at member
      exact (plain _ member).2.2 rfl
    rw [openersFrom, openersFrom_eq_nil inner]
    simp [opener, List.isPrefixOf]
  unfold read
  dsimp only
  rw [found]
  dsimp only
  rw [closer, before]
  refine ⟨?_, rfl, ?_⟩
  · rw [Cursor.rest_skip, rest, ← List.append_assoc]
    exact List.drop_left' (by rw [List.length_append, length]; rfl)
  · rw [closedErrors, before, quiet]
    simp [Log.ofErrors, Log.empty]

end Comment

end Stencil
