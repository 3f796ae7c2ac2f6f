import Stencil.Proofs.Cursor
import Stencil.Text.Search

/-! # Texts as bytes

A text as the bytes that encode it in UTF-8. Whoever searches the bytes finds what a search of the
characters finds, at the place where that character starts: the bytes below 128 stand for
themselves and never occur inside of another character, and the bytes that go on with a character
never start one.
-/

namespace Stencil.Text

/-- The bytes of a text. -/
def bytes (s : List Char) : List UInt8 :=
  s.flatMap String.utf8EncodeChar

@[simp]
theorem bytes_nil : bytes [] = [] := rfl

theorem bytes_cons (c : Char) (s : List Char) :
    bytes (c :: s) = String.utf8EncodeChar c ++ bytes s := rfl

theorem bytes_append (s t : List Char) : bytes (s ++ t) = bytes s ++ bytes t :=
  List.flatMap_append

@[simp]
theorem length_bytes (s : List Char) : (bytes s).length = byteLength s := by
  induction s with
  | nil => rfl
  | cons c s ih =>
      rw [bytes_cons, List.length_append, ih, String.length_utf8EncodeChar, byteLength_cons]

theorem drop_bytes (s : List Char) (n : Nat) :
    (bytes s).drop (byteLength (s.take n)) = bytes (s.drop n) := by
  have cut := bytes_append (s.take n) (s.drop n)
  rw [List.take_append_drop] at cut
  rw [cut, ← length_bytes, List.drop_left]

theorem take_bytes (s : List Char) (n : Nat) :
    (bytes s).take (byteLength (s.take n)) = bytes (s.take n) := by
  have cut := bytes_append (s.take n) (s.drop n)
  rw [List.take_append_drop] at cut
  rw [cut, ← length_bytes, List.take_left]

theorem byteLength_take_le (s : List Char) (n : Nat) : byteLength (s.take n) ≤ byteLength s := by
  have whole := byteLength_append (s.take n) (s.drop n)
  rw [List.take_append_drop] at whole
  omega

theorem head_utf8Size (s : List Char) : s.head?.elim 0 Char.utf8Size = byteLength (s.take 1) := by
  cases s <;> rfl

theorem byteLength_take_of_prefix {s t : List Char} (h : t <+: s) :
    byteLength (s.take t.length) = byteLength t := by
  rw [← List.prefix_iff_eq_take.mp h]

/-- The number of bytes before the end of a part of a text. -/
theorem byteLength_take_add_length {s t : List Char} {n : Nat} (h : t <+: s.drop n) :
    byteLength (s.take (n + t.length)) = byteLength (s.take n) + byteLength t := by
  rw [List.take_add, byteLength_append, byteLength_take_of_prefix h]

theorem byteLength_take_lt (s : List Char) {m n : Nat} (less : m < n) (inside : n ≤ s.length) :
    byteLength (s.take m) < byteLength (s.take n) := by
  obtain ⟨k, rfl⟩ := Nat.exists_eq_add_of_le (Nat.le_of_lt less)
  have some : 0 < ((s.drop m).take k).length := by
    rw [List.length_take, List.length_drop]
    omega
  have bytes := length_le_byteLength ((s.drop m).take k)
  rw [List.take_add, byteLength_append]
  omega

/-! ## Characters of one byte -/

/-- A byte as the character of that number. Tests of single bytes are tests of characters. -/
def ofByte (test : Char → Bool) (b : UInt8) : Bool :=
  test (Char.ofUInt8 b)

/-- A test that tells nothing about the characters of more than one byte. -/
def IsAscii (test : Char → Bool) : Prop :=
  ∃ answer, ∀ c : Char, 128 ≤ c.toNat → test c = answer

theorem utf8Size_eq_one {c : Char} (h : c.toNat < 128) : c.utf8Size = 1 := by
  rw [Char.utf8Size_eq_one_iff, UInt32.le_iff_toNat_le]
  exact Nat.le_of_lt_succ h

theorem utf8EncodeChar_of_lt {c : Char} (h : c.toNat < 128) :
    String.utf8EncodeChar c = [UInt8.ofNat c.toNat] :=
  String.utf8EncodeChar_eq_singleton (utf8Size_eq_one h)

/-- A text of characters that have one byte each. -/
def AllAscii (s : List Char) : Prop :=
  ∀ c ∈ s, c.toNat < 128

instance (s : List Char) : Decidable (AllAscii s) :=
  decidable_of_iff (s.all fun c => c.toNat < 128) (by simp [AllAscii])

theorem byteLength_of_ascii {s : List Char} (ascii : AllAscii s) : byteLength s = s.length := by
  induction s with
  | nil => rfl
  | cons c s ih =>
      have later := ih fun d hd => ascii d (by simp [hd])
      rw [byteLength_cons, utf8Size_eq_one (ascii c (by simp)), later, List.length_cons,
        Nat.add_comm]

/-- Along characters of one byte, bytes are counted like characters. -/
theorem byteLength_take_add {s a : List Char} {n j : Nat} (starts : a <+: s.drop n)
    (ascii : AllAscii a) (inside : j ≤ a.length) :
    byteLength (s.take (n + j)) = byteLength (s.take n) + j := by
  have mark : (s.drop n).take j = a.take j := by
    obtain ⟨t, whole⟩ := starts
    rw [← whole, List.take_append_of_le_length inside]
  have width : byteLength (a.take j) = j := by
    rw [byteLength_of_ascii fun c hc => ascii c (List.mem_of_mem_take hc), List.length_take,
      Nat.min_eq_left inside]
  rw [List.take_add, byteLength_append, mark, width]

/-- The bytes of the other characters are all above those. -/
theorem le_of_mem_utf8EncodeChar {c : Char} {b : UInt8} (h : 128 ≤ c.toNat)
    (member : b ∈ String.utf8EncodeChar c) : 128 ≤ b.toNat := by
  have high : ∀ x y : UInt8, 128 ≤ y.toNat → 128 ≤ (x ||| y).toNat := by
    intro x y hy
    rw [UInt8.toNat_or]
    exact Nat.le_trans hy Nat.right_le_or
  have size : c.utf8Size ≠ 1 := by
    rw [ne_eq, Char.utf8Size_eq_one_iff, UInt32.le_iff_toNat_le]
    change ¬ c.toNat ≤ 127
    omega
  have most := c.utf8Size_le_four
  have least := c.utf8Size_pos
  have cases : c.utf8Size = 2 ∨ c.utf8Size = 3 ∨ c.utf8Size = 4 := by omega
  rcases cases with two | three | four
  · rw [String.utf8EncodeChar_eq_cons_cons two] at member
    simp only [List.mem_cons, List.not_mem_nil, or_false] at member
    rcases member with rfl | rfl <;> exact high _ _ (by decide)
  · rw [String.utf8EncodeChar_eq_cons_cons_cons three] at member
    simp only [List.mem_cons, List.not_mem_nil, or_false] at member
    rcases member with rfl | rfl | rfl <;> exact high _ _ (by decide)
  · rw [String.utf8EncodeChar_eq_cons_cons_cons_cons four] at member
    simp only [List.mem_cons, List.not_mem_nil, or_false] at member
    rcases member with rfl | rfl | rfl | rfl <;> exact high _ _ (by decide)

theorem ofByte_ofNat (test : Char → Bool) {c : Char} (h : c.toNat < 128) :
    ofByte test (UInt8.ofNat c.toNat) = test c := by
  have same : Char.ofUInt8 (UInt8.ofNat c.toNat) = c := by
    rw [Char.ext_iff, ← UInt32.toNat_inj]
    change c.toNat % 256 = c.toNat
    exact Nat.mod_eq_of_lt (by omega)
  rw [ofByte, same]

/-- Such a test gives the same answer for a character and for each of its bytes. -/
theorem ofByte_of_mem {test : Char → Bool} (ascii : IsAscii test) {c : Char} {b : UInt8}
    (member : b ∈ String.utf8EncodeChar c) : ofByte test b = test c := by
  obtain ⟨answer, above⟩ := ascii
  by_cases h : c.toNat < 128
  · rw [utf8EncodeChar_of_lt h, List.mem_singleton] at member
    rw [member, ofByte_ofNat test h]
  · have high : 128 ≤ (Char.ofUInt8 b).toNat := le_of_mem_utf8EncodeChar (by omega) member
    rw [ofByte, above _ high, above c (by omega)]

theorem beq_eq_false {c d : Char} (large : 128 ≤ c.toNat) (small : d.toNat < 128) :
    (c == d) = false := by
  rw [beq_eq_false_iff_ne]
  rintro rfl
  omega

namespace IsAscii

variable {p q : Char → Bool}

theorem beq {d : Char} (h : d.toNat < 128) : IsAscii (· == d) :=
  ⟨false, fun _ large => beq_eq_false large h⟩

theorem or (hp : IsAscii p) (hq : IsAscii q) : IsAscii fun c => p c || q c := by
  obtain ⟨x, hx⟩ := hp
  obtain ⟨y, hy⟩ := hq
  exact ⟨x || y, fun c hc => by simp only [hx c hc, hy c hc]⟩

theorem not (hp : IsAscii p) : IsAscii fun c => !p c := by
  obtain ⟨x, hx⟩ := hp
  exact ⟨!x, fun c hc => by simp only [hx c hc]⟩

theorem isBlank : IsAscii isBlank := by
  unfold Text.isBlank
  exact ((((beq (by decide)).or (beq (by decide))).or (beq (by decide))).or (beq (by decide))).or
    (beq (by decide))

end IsAscii

/-! ## Searching for a byte -/

theorem takeWhile_eq_self {test : Char → Bool} {s : List Char} (h : s.any test = false) :
    (s.takeWhile fun c => !test c) = s := by
  have all : ∀ c ∈ s, (!test c) = true := fun c hc => by
    rw [Bool.not_eq_true', ← Bool.not_eq_true]
    exact List.any_eq_false.mp h c hc
  have whole : (s ++ []).takeWhile (fun c => !test c) = s ++ [].takeWhile fun c => !test c :=
    List.takeWhile_append_of_pos all
  rw [List.append_nil, List.takeWhile_nil, List.append_nil] at whole
  exact whole

/-- The first character that satisfies a test comes after those that do not. -/
theorem exists_drop_takeWhile {test : Char → Bool} {s : List Char} (h : s.any test = true) :
    ∃ c t, s.drop (s.takeWhile fun c => !test c).length = c :: t ∧ test c = true := by
  induction s with
  | nil => cases h
  | cons c s ih =>
      cases answer : test c with
      | true => exact ⟨c, s, by simp [answer], answer⟩
      | false =>
          obtain ⟨d, t, rest, found⟩ := ih (by simpa [answer] using h)
          exact ⟨d, t, by simpa [answer] using rest, found⟩

/-- The first byte that satisfies a test is that of the first such character. -/
theorem findIdx?_bytes {test : Char → Bool} (ascii : IsAscii test) (s : List Char) :
    (bytes s).findIdx? (ofByte test) =
      if s.any test then some (byteLength (s.takeWhile fun c => !test c)) else none := by
  induction s with
  | nil => rfl
  | cons c s ih =>
      rw [bytes_cons, List.findIdx?_append, ih]
      cases answer : test c with
      | true =>
          cases code : String.utf8EncodeChar c with
          | nil => exact absurd code String.utf8EncodeChar_ne_nil
          | cons b bs =>
              have first : ofByte test b = true := by
                rw [ofByte_of_mem ascii (c := c) (by simp [code]), answer]
              simp [List.findIdx?_cons, first, answer]
      | false =>
          have skipped : (String.utf8EncodeChar c).findIdx? (ofByte test) = none := by
            rw [List.findIdx?_eq_none_iff]
            intro b hb
            rw [ofByte_of_mem ascii hb, answer]
          rw [skipped, Option.none_or, String.length_utf8EncodeChar]
          cases found : s.any test <;> simp [answer, found, Nat.add_comm]

/-- Where a search for a byte ends, if it goes on to the end of the text. -/
theorem getD_findIdx?_bytes {test : Char → Bool} (ascii : IsAscii test) (s : List Char) :
    ((bytes s).findIdx? (ofByte test)).getD (byteLength s) =
      byteLength (s.takeWhile fun c => !test c) := by
  rw [findIdx?_bytes ascii]
  split
  · rfl
  · next none =>
    rw [takeWhile_eq_self (Bool.eq_false_iff.mpr none)]
    rfl

/-! ## Searching for a text -/

/-- The first place of some bytes in others. -/
def findBytes (needle : List UInt8) : List UInt8 → Option Nat
  | [] => if needle.isPrefixOf [] then some 0 else none
  | b :: bs => if needle.isPrefixOf (b :: bs) then some 0 else (findBytes needle bs).map (· + 1)

/-- The bytes of a text start with those of another one only where the text does. -/
theorem isPrefixOf_bytes (t s : List Char) : (bytes t).isPrefixOf (bytes s) = t.isPrefixOf s := by
  rw [Bool.eq_iff_iff, List.isPrefixOf_iff_prefix, List.isPrefixOf_iff_prefix]
  constructor
  · intro ⟨u, whole⟩
    refine List.isPrefix_of_utf8Encode_append_eq_utf8Encode u.toByteArray ?_
    rw [List.utf8Encode, List.utf8Encode, ← List.toByteArray_append]
    exact congrArg List.toByteArray whole
  · intro ⟨u, whole⟩
    exact ⟨bytes u, by rw [← bytes_append, whole]⟩

/-- No character starts at a byte that goes on with one. -/
theorem findBytes_append {b : UInt8} {needle : List UInt8} (first : b.IsUTF8FirstByte)
    {skipped : List UInt8} (inside : ∀ x ∈ skipped, ¬ x.IsUTF8FirstByte) (bs : List UInt8) :
    findBytes (b :: needle) (skipped ++ bs) =
      (findBytes (b :: needle) bs).map (· + skipped.length) := by
  induction skipped with
  | nil => simp
  | cons x skipped ih =>
      have other : b ≠ x := by
        rintro rfl
        exact inside b (by simp) first
      rw [List.cons_append, findBytes, ih fun y hy => inside y (by simp [hy])]
      simp [other, Option.map_map, Function.comp_def, Nat.add_assoc]

theorem findBytes_of_isPrefixOf {needle bs : List UInt8} (h : needle.isPrefixOf bs = true) :
    findBytes needle bs = some 0 := by
  cases bs <;> rw [findBytes, if_pos h]

/-- A character as bytes: one that starts it and others that do not start any. -/
theorem exists_utf8EncodeChar_eq (c : Char) :
    ∃ b bs, String.utf8EncodeChar c = b :: bs ∧ b.IsUTF8FirstByte ∧
      (∀ x ∈ bs, ¬ x.IsUTF8FirstByte) ∧ c.utf8Size = bs.length + 1 := by
  cases code : String.utf8EncodeChar c with
  | nil => exact absurd code String.utf8EncodeChar_ne_nil
  | cons b bs =>
      have starts : ∀ i (hi : i < (b :: bs).length), (b :: bs)[i].IsUTF8FirstByte ↔ i = 0 := by
        rw [← code]
        exact fun i hi => UInt8.isUTF8FirstByte_getElem_utf8EncodeChar
      refine ⟨b, bs, rfl, (starts 0 (by simp)).mpr rfl, fun x hx first => ?_, ?_⟩
      · obtain ⟨i, hi, rfl⟩ := List.mem_iff_getElem.mp hx
        have zero := (starts (i + 1) (by simpa using hi)).mp first
        omega
      · rw [← String.length_utf8EncodeChar, code, List.length_cons]

/-- The first byte of a text answers for its first character. -/
theorem exists_head_bytes (x : Char) (s : List Char) :
    ∃ b, (bytes (x :: s))[0]? = some b ∧ ∀ test, IsAscii test → ofByte test b = test x := by
  obtain ⟨b, bs, code, _⟩ := exists_utf8EncodeChar_eq x
  refine ⟨b, by simp [bytes_cons, code], fun test ascii => ?_⟩
  exact ofByte_of_mem ascii (by simp [code])

/-- Whoever searches the bytes of a text for those of another one finds the place where a search of
    the characters ends. -/
theorem findBytes_bytes (t s : List Char) :
    findBytes (bytes t) (bytes s) = (find t s).map fun n => byteLength (s.take n) := by
  induction s with
  | nil =>
      have same := isPrefixOf_bytes t []
      rw [bytes_nil] at same
      rw [bytes_nil, findBytes, same, find, seek]
      split <;> rfl
  | cons c s ih =>
      have same := isPrefixOf_bytes t (c :: s)
      rw [find, seek]
      cases here : t.isPrefixOf (c :: s) with
      | true =>
          rw [findBytes_of_isPrefixOf (same.trans here)]
          rfl
      | false =>
          obtain ⟨d, t, rfl⟩ : ∃ d u, t = d :: u := by
            cases t with
            | nil => cases here
            | cons d u => exact ⟨d, u, rfl⟩
          obtain ⟨b, bs, code, _, inside, size⟩ := exists_utf8EncodeChar_eq c
          obtain ⟨b', bs', code', first, _, _⟩ := exists_utf8EncodeChar_eq d
          rw [bytes_cons c, code, here, List.cons_append] at same
          rw [bytes_cons c, code, List.cons_append]
          rw [bytes_cons d, code', List.cons_append] at ih same ⊢
          rw [findBytes, same, if_neg Bool.false_ne_true, findBytes_append first inside, ih, find]
          simp only [Option.map_map, Bool.false_eq_true, if_false]
          congr 1
          funext n
          simp only [Function.comp_apply, List.take_succ_cons, byteLength_cons, size]
          omega

end Stencil.Text
