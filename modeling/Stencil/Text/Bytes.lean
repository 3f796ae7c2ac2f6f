/-! # Texts measured in bytes

Offsets count the bytes of a text in UTF-8, while the library works on characters. The functions
here cut a text at a byte offset: the checked one refuses an offset that is not between two
characters, the others are for offsets that are known to be.
-/

namespace Stencil.Text

/-- The number of bytes of a text in UTF-8. -/
def byteLength (s : List Char) : Nat :=
  s.foldr (fun c n => c.utf8Size + n) 0

/-- The first `n` bytes of a text, where a character ends after them. -/
def takeBytes? : Nat → List Char → Option (List Char)
  | 0, _ => some []
  | _ + 1, [] => none
  | n + 1, c :: cs =>
    if c.utf8Size ≤ n + 1 then (takeBytes? (n + 1 - c.utf8Size) cs).map (c :: ·) else none

/-- The least number of whole characters with at least `n` bytes, from the start of a text. -/
def takeBytes : Nat → List Char → List Char
  | 0, _ => []
  | _ + 1, [] => []
  | n + 1, c :: cs => c :: takeBytes (n + 1 - c.utf8Size) cs

/-- What `takeBytes` leaves over. -/
def dropBytes : Nat → List Char → List Char
  | 0, s => s
  | _ + 1, [] => []
  | n + 1, c :: cs => dropBytes (n + 1 - c.utf8Size) cs

/-- The part of a text from byte `lo` to byte `hi`. -/
def sliceBytes (s : List Char) (lo hi : Nat) : List Char :=
  takeBytes (hi - lo) (dropBytes lo s)

@[simp]
theorem byteLength_nil : byteLength [] = 0 := rfl

@[simp]
theorem byteLength_cons (c : Char) (s : List Char) :
    byteLength (c :: s) = c.utf8Size + byteLength s := rfl

@[simp]
theorem byteLength_append (s t : List Char) :
    byteLength (s ++ t) = byteLength s + byteLength t := by
  induction s with
  | nil => simp
  | cons c s ih => rw [List.cons_append, byteLength_cons, byteLength_cons, ih, Nat.add_assoc]

/-- Taking as many bytes as `s` has gives back `s`. -/
theorem takeBytes_byteLength_append (s t : List Char) :
    takeBytes (byteLength s) (s ++ t) = s := by
  induction s with
  | nil => simp [takeBytes]
  | cons c cs ih =>
    obtain ⟨n, hn⟩ := Nat.exists_eq_add_of_lt (Char.utf8Size_pos c)
    have : byteLength (c :: cs) = (n + byteLength cs) + 1 := by
      rw [byteLength_cons]
      omega
    rw [this, List.cons_append, takeBytes]
    have hsub : n + byteLength cs + 1 - c.utf8Size = byteLength cs := by omega
    rw [hsub, ih]

/-- Dropping as many bytes as `s` has leaves what follows it. -/
theorem dropBytes_byteLength_append (s t : List Char) :
    dropBytes (byteLength s) (s ++ t) = t := by
  induction s with
  | nil => simp [dropBytes]
  | cons c cs ih =>
    obtain ⟨n, hn⟩ := Nat.exists_eq_add_of_lt (Char.utf8Size_pos c)
    have : byteLength (c :: cs) = (n + byteLength cs) + 1 := by
      rw [byteLength_cons]
      omega
    rw [this, List.cons_append, dropBytes]
    have hsub : n + byteLength cs + 1 - c.utf8Size = byteLength cs := by omega
    rw [hsub, ih]

end Stencil.Text
