import Stencil.Cursor

/-! # The order of cursors

`Cursor.Reaches` orders the cursors of one template. The offset decides where a cursor stands, so
two cursors that reach one another by no bytes are the same, and the text between two cursors is
the text up to any cursor in between followed by the text after it.
-/

namespace Stencil

namespace Text

theorem byteLength_eq_zero {s : List Char} (h : byteLength s = 0) : s = [] := by
  cases s with
  | nil => rfl
  | cons c s =>
      have := Char.utf8Size_pos c
      rw [byteLength_cons] at h
      omega

theorem length_le_byteLength (s : List Char) : s.length ≤ byteLength s := by
  induction s with
  | nil => exact Nat.le_refl 0
  | cons c s ih =>
      have := Char.utf8Size_pos c
      rw [List.length_cons, byteLength_cons]
      omega

theorem take_length_takeWhile (p : Char → Bool) (s : List Char) :
    s.take (s.takeWhile p).length = s.takeWhile p :=
  (List.prefix_iff_eq_take.mp (List.takeWhile_prefix p)).symm

theorem takeBytes?_eq_some {n : Nat} {s t : List Char} (h : takeBytes? n s = some t) :
    t <+: s ∧ byteLength t = n := by
  fun_induction takeBytes? n s generalizing t with
  | case1 s =>
      cases h
      exact ⟨List.nil_prefix, rfl⟩
  | case2 => cases h
  | case3 n c s fits ih =>
      obtain ⟨u, taken, rfl⟩ := Option.map_eq_some_iff.mp h
      obtain ⟨starts, length⟩ := ih taken
      refine ⟨List.cons_prefix_cons.mpr ⟨rfl, starts⟩, ?_⟩
      rw [byteLength_cons, length]
      omega
  | case4 => cases h

/-- Taking more bytes than `s` has takes `s` and goes on with what follows it. -/
theorem takeBytes?_append (s t : List Char) (n : Nat) :
    takeBytes? (byteLength s + n) (s ++ t) = (takeBytes? n t).map (s ++ ·) := by
  induction s with
  | nil => simp
  | cons c s ih =>
      obtain ⟨m, hm⟩ := Nat.exists_eq_add_of_lt (Char.utf8Size_pos c)
      have total : byteLength (c :: s) + n = (m + byteLength s + n) + 1 := by
        rw [byteLength_cons]
        omega
      have fits : c.utf8Size ≤ m + byteLength s + n + 1 := by omega
      have left : m + byteLength s + n + 1 - c.utf8Size = byteLength s + n := by omega
      rw [total, List.cons_append, takeBytes?, if_pos fits, left, ih, Option.map_map]
      rfl

/-- The checked way to take as many bytes as `s` has gives back `s`. -/
theorem takeBytes?_byteLength_append (s t : List Char) :
    takeBytes? (byteLength s) (s ++ t) = some s := by
  have taken := takeBytes?_append s t 0
  rw [Nat.add_zero, takeBytes?, Option.map_some, List.append_nil] at taken
  exact taken

end Text

namespace Cursor

theorem Reaches.offset_eq {a b : Cursor} (h : a.Reaches b) :
    b.position.offset = a.position.offset + Text.byteLength (a.textTo b) := by
  obtain ⟨s, rest, position⟩ := h
  rw [textTo_of_append rest position, position]
  rfl

/-- A template is its text up to a cursor, which is all that its position depends on, and the rest
    there. -/
theorem Reaches.exists_before {source : List Char} {c : Cursor} (h : (ofText source).Reaches c) :
    ∃ before, source = before ++ c.rest ∧ c.position = Position.start.past before ∧
      c.position.offset = Text.byteLength before := by
  obtain ⟨before, whole, position⟩ := h
  refine ⟨before, whole, position, ?_⟩
  rw [position]
  exact Nat.zero_add _

theorem Reaches.offset_le {a b : Cursor} (h : a.Reaches b) :
    a.position.offset ≤ b.position.offset := by
  rw [h.offset_eq]
  exact Nat.le_add_right _ _

/-- Reading no bytes leads nowhere else. -/
theorem Reaches.eq_of_offset {a b : Cursor} (h : a.Reaches b)
    (same : a.position.offset = b.position.offset) : a = b := by
  obtain ⟨s, rest, position⟩ := h
  have empty : s = [] := by
    apply Text.byteLength_eq_zero
    rw [position] at same
    simp only [Position.past] at same
    omega
  subst empty
  cases a
  cases b
  simp_all

/-- The text after `a` starts with the text between `a` and any later cursor. -/
theorem Reaches.rest_eq {a b : Cursor} (h : a.Reaches b) : a.rest = a.textTo b ++ b.rest := by
  obtain ⟨s, rest, position⟩ := h
  rw [textTo_of_append rest position]
  exact rest

theorem Reaches.position_eq {a b : Cursor} (h : a.Reaches b) :
    b.position = a.position.past (a.textTo b) := by
  obtain ⟨s, rest, position⟩ := h
  rw [textTo_of_append rest position]
  exact position

theorem textTo_append {a b c : Cursor} (h : a.Reaches b) (k : b.Reaches c) :
    a.textTo c = a.textTo b ++ b.textTo c := by
  apply textTo_of_append
  · rw [List.append_assoc, ← k.rest_eq]
    exact h.rest_eq
  · rw [Position.past_append, ← h.position_eq]
    exact k.position_eq

theorem textTo_self (a : Cursor) : a.textTo a = [] :=
  textTo_of_append (s := []) rfl rfl

theorem locationTo_self (a : Cursor) : a.locationTo a = .point a.position := by
  rw [locationTo, textTo_self]
  rfl

theorem skip_skip (c : Cursor) (m n : Nat) : (c.skip m).skip n = c.skip (m + n) := by
  simp only [skip, List.drop_drop, List.take_add, Position.past_append]

theorem skip_reaches_skip (c : Cursor) {m n : Nat} (h : m ≤ n) : (c.skip m).Reaches (c.skip n) := by
  obtain ⟨k, rfl⟩ := Nat.exists_eq_add_of_le h
  rw [← skip_skip]
  exact (c.skip m).reaches_skip k

/-- The text that skipping characters passes over. -/
theorem textTo_skip (c : Cursor) (n : Nat) : c.textTo (c.skip n) = c.rest.take n :=
  textTo_of_append (List.take_append_drop n c.rest).symm rfl

/-- Whatever a cursor reaches, it reaches by skipping characters. -/
theorem Reaches.exists_skip {a b : Cursor} (h : a.Reaches b) : ∃ n, b = a.skip n := by
  obtain ⟨s, rest, position⟩ := h
  refine ⟨s.length, ?_⟩
  cases b
  simp_all [skip]

end Cursor

end Stencil
