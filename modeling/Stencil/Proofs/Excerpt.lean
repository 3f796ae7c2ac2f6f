import Stencil.Proofs.Behind
import Stencil.Proofs.Search

/-! # Excerpts

A text as a part of a longer one, with `u` before it and `t` behind it. What is read in the excerpt
is what is read in the whole, moved behind `u`, as long as no reader has to look behind the end of
the excerpt. An excerpt that ends with a tag makes most of them stop there.
-/

namespace Stencil

namespace Text

/-- Nothing follows `y`, or `y` ends with the mark that ends a tag. -/
def Fits (t y : List Char) : Prop :=
  t = [] ∨ y.getLast? = some '>'

/-- What follows `y` makes no difference to a test of what starts in `y`. -/
def Seamless (p : List Char → Bool) (t y : List Char) : Prop :=
  ∀ x z, y = x ++ z → z ≠ [] → p (z ++ t) = p z

variable {t x y z : List Char} {p : List Char → Bool} {q : Char → Bool}

theorem Fits.nil (y : List Char) : Fits [] y :=
  .inl rfl

theorem Fits.suffix (h : Fits t (x ++ y)) (more : y ≠ []) : Fits t y := by
  refine h.imp_right fun last => ?_
  rw [List.getLast?_append] at last
  cases own : y.getLast? with
  | none => exact absurd (List.getLast?_eq_none_iff.mp own) more
  | some c =>
      rw [own] at last
      exact last

theorem Fits.drop {n : Nat} (h : Fits t y) (more : n < y.length) : Fits t (y.drop n) := by
  rw [← List.take_append_drop n y] at h
  apply h.suffix
  rw [ne_eq, List.drop_eq_nil_iff]
  exact Nat.not_le_of_lt more

/-- The end of a tag comes after every other character. -/
theorem Fits.tail {c : Char} (h : Fits t (c :: y)) (other : c ≠ '>') : Fits t y := by
  refine h.imp_right fun last => ?_
  cases y with
  | nil => exact absurd (Option.some.inj last) other
  | cons d y => simpa [List.getLast?_cons_cons] using last

theorem Seamless.suffix (h : Seamless p t (x ++ y)) : Seamless p t y := by
  intro w z split
  exact h (x ++ w) z (by rw [split, List.append_assoc])

/-! ## Runs of characters -/

theorem length_takeWhile_lt (last : y.getLast? = some '>') (stop : q '>' = false) :
    (y.takeWhile q).length < y.length := by
  refine Nat.lt_of_le_of_ne (List.takeWhile_prefix q).length_le fun all => ?_
  have whole : y.takeWhile q = y := (List.takeWhile_prefix q).eq_of_length all
  have member := List.mem_of_getLast? last
  rw [← whole] at member
  have holds := List.all_eq_true.mp List.all_takeWhile _ member
  rw [stop] at holds
  cases holds

theorem takeWhile_fits (h : Fits t y) (stop : q '>' = false) :
    (y ++ t).takeWhile q = y.takeWhile q := by
  rcases h with rfl | last
  · rw [List.append_nil]
  · rw [List.takeWhile_append, if_neg (Nat.ne_of_lt (length_takeWhile_lt last stop))]

theorem Fits.drop_takeWhile (h : Fits t y) (stop : q '>' = false) :
    Fits t (y.drop (y.takeWhile q).length) := by
  rcases h with rfl | last
  · exact .nil _
  · exact Fits.drop (.inr last) (length_takeWhile_lt last stop)

/-! ## Searches -/

theorem isPrefixOf_append_of_le {needle : List Char} (h : needle.length ≤ y.length) :
    needle.isPrefixOf (y ++ t) = needle.isPrefixOf y := by
  rw [Bool.eq_iff_iff, List.isPrefixOf_iff_prefix, List.isPrefixOf_iff_prefix]
  constructor
  · exact fun starts => List.prefix_of_prefix_length_le starts (List.prefix_append y t) h
  · exact fun starts => starts.trans (List.prefix_append y t)

/-- A mark that has the end of a tag at most as its last character is not cut by the end of the
    excerpt. -/
theorem isPrefixOf_fits {needle : List Char} (inner : '>' ∉ needle.dropLast) (h : Fits t y) :
    needle.isPrefixOf (y ++ t) = needle.isPrefixOf y := by
  rcases h with rfl | last
  · rw [List.append_nil]
  · rcases Nat.lt_or_ge y.length needle.length with cut | fits
    · have short : y <+: needle → False := by
        rintro ⟨w, rfl⟩
        have some : w ≠ [] := by
          rintro rfl
          simp at cut
        rw [List.dropLast_append_of_ne_nil some] at inner
        exact inner (List.mem_append_left _ (List.mem_of_getLast? last))
      rw [Bool.eq_iff_iff, List.isPrefixOf_iff_prefix, List.isPrefixOf_iff_prefix]
      constructor
      · intro starts
        exact (short (List.prefix_of_prefix_length_le (List.prefix_append y t) starts
          (Nat.le_of_lt cut))).elim
      · intro starts
        exact absurd starts.length_le (Nat.not_le_of_lt cut)
    · exact isPrefixOf_append_of_le fits

theorem seamless_isPrefixOf {needle : List Char} (inner : '>' ∉ needle.dropLast) (h : Fits t y) :
    Seamless needle.isPrefixOf t y := by
  rintro w z rfl more
  exact isPrefixOf_fits inner (h.suffix more)

/-- A search stops in the excerpt where it would, or goes on behind it. -/
theorem seek_seamless (h : Seamless p t y) (empty : p [] = false) :
    seek p (y ++ t) =
      match seek p y with
      | some n => some n
      | none => (seek p t).map (· + y.length) := by
  induction y with
  | nil => simp [seek, empty]
  | cons c y ih =>
      have here := h [] (c :: y) rfl (List.cons_ne_nil c y)
      have rest := ih (Seamless.suffix (x := [c]) h)
      rw [List.cons_append] at here ⊢
      rw [seek, here, rest, seek]
      split
      · rfl
      · cases seek p y with
        | some n => rfl
        | none =>
            cases seek p t with
            | none => rfl
            | some n => simp [Nat.add_assoc]

theorem eq_false_of_seek (h : seek p y ≠ some 0) : p y = false := by
  cases holds : p y with
  | false => rfl
  | true => exact absurd (seek_of_holds holds) h

theorem length_le_of_find {needle : List Char} {n : Nat} (h : find needle y = some n) :
    n + needle.length ≤ y.length := by
  have fits := (List.isPrefixOf_iff_prefix.mp (seek_holds h)).length_le
  have bound := seek_le_length h
  rw [List.length_drop] at fits
  omega

theorem find_append_of_some {needle : List Char} {n : Nat} (h : find needle y = some n) :
    find needle (y ++ t) = some n := by
  unfold find at h ⊢
  induction y generalizing n with
  | nil =>
      rw [seek] at h
      split at h
      · next empty =>
        cases h
        rw [List.nil_append]
        apply seek_of_holds
        cases needle with
        | nil => simp
        | cons => cases empty
      · cases h
  | cons c y ih =>
      rw [seek] at h
      split at h
      · next starts =>
        cases h
        apply seek_of_holds
        rw [List.isPrefixOf_iff_prefix] at starts ⊢
        exact starts.trans (List.prefix_append _ _)
      · next other =>
        obtain ⟨m, found, rfl⟩ := Option.map_eq_some_iff.mp h
        -- the needle fits in what follows, so what is behind that makes no difference here
        have fits := (List.isPrefixOf_iff_prefix.mp (seek_holds found)).length_le
        rw [List.length_drop] at fits
        have same : needle.isPrefixOf (c :: y ++ t) = needle.isPrefixOf (c :: y) :=
          isPrefixOf_append_of_le (by rw [List.length_cons]; omega)
        rw [List.cons_append] at same ⊢
        rw [seek, same, if_neg other, ih found]
        rfl

/-- A needle that is not found in the excerpt ends behind it, if it is found at all. -/
theorem lt_of_find_append {needle : List Char} {n : Nat} (missing : find needle y = none)
    (h : find needle (y ++ t) = some n) : y.length < n + needle.length := by
  refine Nat.lt_of_not_le fun fits => ?_
  have starts := seek_holds h
  rw [List.drop_append_of_le_length (by omega),
    isPrefixOf_append_of_le (by rw [List.length_drop]; omega)] at starts
  clear h
  unfold find at missing
  induction y generalizing n with
  | nil =>
      simp only [List.drop_nil, seek] at starts missing
      rw [if_pos starts] at missing
      cases missing
  | cons c y ih =>
      rw [seek] at missing
      split at missing
      · cases missing
      · next other =>
        cases n with
        | zero => exact other starts
        | succ n =>
            refine ih (Option.map_eq_none_iff.mp missing) ?_ starts
            simp only [List.length_cons] at fits
            omega

end Text

/-! ## Cursors of an excerpt -/

namespace Cursor

/-- The place of `c`, a cursor of an excerpt, in the whole template. -/
def within (u t : List Char) (c : Cursor) : Cursor :=
  ⟨c.position.behind u, c.rest ++ t⟩

/-- A cursor of an excerpt that what is read next can be expected to end in. -/
structure Fits (t : List Char) (c : Cursor) : Prop where
  first : 0 < c.position.line
  text : Text.Fits t c.rest

variable {u t : List Char} {a b c : Cursor} {n : Nat}

@[simp]
theorem rest_within (u t : List Char) (c : Cursor) : (c.within u t).rest = c.rest ++ t := rfl

theorem Reaches.first (h : a.Reaches b) (first : 0 < a.position.line) : 0 < b.position.line := by
  obtain ⟨s, _, position⟩ := h
  rw [position]
  exact Nat.lt_of_lt_of_le first (Nat.le_add_right _ _)

theorem Reaches.within (h : a.Reaches b) (first : 0 < a.position.line) (u t : List Char) :
    (a.within u t).Reaches (b.within u t) := by
  obtain ⟨s, rest, position⟩ := h
  refine ⟨s, ?_, ?_⟩
  · rw [rest_within, rest, List.append_assoc, rest_within]
  · change b.position.behind u = _
    rw [position]
    exact Position.past_behind u s first

theorem skip_within (first : 0 < c.position.line) (h : n ≤ c.rest.length ∨ t = []) (u : List Char) :
    (c.within u t).skip n = (c.skip n).within u t := by
  have taken : (c.rest ++ t).take n = c.rest.take n ∧
      (c.rest ++ t).drop n = c.rest.drop n ++ t := by
    rcases h with fits | rfl
    · exact ⟨List.take_append_of_le_length fits, List.drop_append_of_le_length fits⟩
    · simp only [List.append_nil, and_self]
  simp only [skip, within, taken, Position.past_behind u _ first]

theorem ahead_within (first : 0 < c.position.line) (h : n ≤ c.rest.length ∨ t = [])
    (u : List Char) : (c.within u t).ahead n = (c.ahead n).behind u := by
  rw [ahead, skip_within first h u]
  rfl

theorem textTo_within (h : a.Reaches b) (u t : List Char) :
    (a.within u t).textTo (b.within u t) = a.textTo b := by
  have width : (b.within u t).position.offset - (a.within u t).position.offset =
      Text.byteLength (a.textTo b) := by
    change Text.byteLength u + b.position.offset - (Text.byteLength u + a.position.offset) = _
    rw [h.offset_eq]
    omega
  rw [textTo, width, rest_within, h.rest_eq, List.append_assoc, Text.takeBytes_byteLength_append]

theorem locationTo_within (h : a.Reaches b) (u t : List Char) :
    (a.within u t).locationTo (b.within u t) = (a.locationTo b).behind u := by
  rw [locationTo, textTo_within h]
  rfl

theorem Fits.skip (h : c.Fits t) (more : n < c.rest.length) : (c.skip n).Fits t where
  first := (c.reaches_skip n).first h.first
  text := h.text.drop more

theorem Fits.skip_takeWhile {q : Char → Bool} (h : c.Fits t) (stop : q '>' = false) :
    (c.skip (c.rest.takeWhile q).length).Fits t where
  first := (c.reaches_skip _).first h.first
  text := h.text.drop_takeWhile stop

/-- A run of characters that the end of a tag ends is the same in the whole template. -/
theorem skip_takeWhile_within {q : Char → Bool} (h : c.Fits t) (stop : q '>' = false)
    (u : List Char) : (c.within u t).skip ((c.within u t).rest.takeWhile q).length =
      (c.skip (c.rest.takeWhile q).length).within u t := by
  rw [rest_within, Text.takeWhile_fits h.text stop]
  exact skip_within h.first (.inl (List.takeWhile_prefix q).length_le) u

theorem Fits.skipBlanks (h : c.Fits t) : c.skipBlanks.Fits t :=
  h.skip_takeWhile rfl

theorem skipBlanks_within (h : c.Fits t) (u : List Char) :
    (c.within u t).skipBlanks = c.skipBlanks.within u t :=
  skip_takeWhile_within h rfl u

/-- After a character that does not end a tag, more of the excerpt follows. -/
theorem Fits.skip_one {d : Char} {y : List Char} (h : c.Fits t) (text : c.rest = d :: y)
    (other : d ≠ '>') : (c.skip 1).Fits t where
  first := (c.reaches_skip 1).first h.first
  text := by
    have fits := h.text
    rw [text] at fits
    rw [rest_skip, text]
    exact fits.tail other

end Cursor

/-! ## Readings of an excerpt -/

namespace Reading

variable {α : Type}

/-- `long` is the reading `short` of an excerpt in the whole template: the same value in its place,
    the same cursor in its place, and the same errors in their places. -/
structure Matches (u t : List Char) (move : α → α) (long short : Reading α) : Prop where
  value : long.value = move short.value
  cursor : long.cursor = short.cursor.within u t
  errors : long.log.errors = short.log.errors.map (ParseError.behind u)

/-- What is read goes on behind the excerpt: in the excerpt alone all that is left is read, in the
    whole template more than that. -/
structure RunsOver (t : List Char) (long short : Reading α) : Prop where
  short : short.cursor.rest = []
  long : long.cursor.rest.length < t.length

end Reading

end Stencil
