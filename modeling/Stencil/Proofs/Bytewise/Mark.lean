import Stencil.Proofs.Bytewise.Value
import Stencil.Read.State

/-! # The marks of tags by bytes

Tells from bytes what markup is, and whether an end tag for a given element follows. Names are
compared byte by byte, after the case of ASCII letters is taken away; that does not touch the bytes
of any other character.
-/

namespace Stencil

/-- A byte with the case of ASCII letters taken away. -/
def Text.lowerByte (b : UInt8) : UInt8 :=
  if 65 ≤ b.toNat ∧ b.toNat ≤ 90 then b + 32 else b

/-- The bytes `bs` start with an end tag for `tag`. -/
def Tag.startsEndTagBytes (bs : List UInt8) (tag : List Char) : Checked Bool :=
  let stop := 2 + Text.byteLength tag
  if (Text.bytes ['<', '/']).isPrefixOf bs && decide (stop ≤ bs.length) then do
    let name ← Checked.bytesFrom (← Checked.bytesTo bs stop) 2
    return name.map Text.lowerByte == (Text.bytes tag).map Text.lowerByte &&
      bs[stop]?.all (Text.ofByte Tag.isBreak)
  else return false

/-- What the bytes of a text that starts with `<` are. -/
def Markup.ofBytes (bs : List UInt8) : Markup :=
  match bs[1]? with
  | none => eof
  | some b =>
    if Text.ofByte (· == '!') b then
      if (Text.bytes "<!--".toList).isPrefixOf bs then comment
      else if (Text.bytes "<!DOCTYPE".toList).isPrefixOf bs then doctype
      else if (Text.bytes "<![CDATA[".toList).isPrefixOf bs then cdata
      else declaration
    else if Text.ofByte (· == '/') b then
      match bs[2]? with
      | none => endTagEof
      | some d =>
        if Text.ofByte (· == '>') d then namelessEndTag
        else if Text.ofByte Tag.isNameStart d then endTag
        else badEndTag
    else if Text.ofByte Tag.isNameStart b then startTag
    else if Text.ofByte (· == '?') b then instruction
    else stray

/-! ## Names without case -/

namespace Text

theorem lowerByte_of_le {b : UInt8} (h : 128 ≤ b.toNat) : lowerByte b = b :=
  if_neg (by omega)

theorem toLower_of_le {c : Char} (h : 128 ≤ c.toNat) : c.toLower = c := by
  unfold Char.toLower
  split
  · next upper =>
    have := UInt32.le_iff_toNat_le.mp upper.2
    change c.toNat ≤ 90 at this
    omega
  · rfl

theorem lowerByte_ascii : ∀ n < 128, lowerByte (UInt8.ofNat n) =
    UInt8.ofNat (Char.ofNat n).toLower.toNat ∧ (Char.ofNat n).toLower.toNat < 128 := by
  decide

/-- The bytes of a character lose their case where the character does. -/
theorem map_lowerByte_utf8EncodeChar (c : Char) :
    (String.utf8EncodeChar c).map lowerByte = String.utf8EncodeChar c.toLower := by
  by_cases h : c.toNat < 128
  · have lower := lowerByte_ascii c.toNat h
    rw [Char.ofNat_toNat] at lower
    rw [utf8EncodeChar_of_lt h, utf8EncodeChar_of_lt lower.2, List.map_singleton, lower.1]
  · have large : 128 ≤ c.toNat := by omega
    have same : ∀ b ∈ String.utf8EncodeChar c, lowerByte b = b := fun b hb =>
      lowerByte_of_le (le_of_mem_utf8EncodeChar large hb)
    rw [toLower_of_le large, List.map_congr_left same, List.map_id']

theorem map_lowerByte_bytes (s : List Char) :
    (bytes s).map lowerByte = bytes (s.map Char.toLower) := by
  induction s with
  | nil => rfl
  | cons c s ih =>
      rw [bytes_cons, List.map_append, ih, map_lowerByte_utf8EncodeChar, List.map_cons, bytes_cons]

theorem byteLength_map_toLower (s : List Char) :
    byteLength (s.map Char.toLower) = byteLength s := by
  rw [← length_bytes, ← map_lowerByte_bytes, List.length_map, length_bytes]

/-- A text starts like a name, up to case, if its bytes do. -/
theorem map_lowerByte_take (s tag : List Char) :
    (((bytes s).take (byteLength tag)).map lowerByte == (bytes tag).map lowerByte) =
      sameIgnoringCase (s.take tag.length) tag := by
  rw [List.map_take, map_lowerByte_bytes, map_lowerByte_bytes, ← byteLength_map_toLower,
    ← length_bytes, Bool.eq_iff_iff, beq_iff_eq, eq_comm, ← List.prefix_iff_eq_take,
    ← List.isPrefixOf_iff_prefix, isPrefixOf_bytes, List.isPrefixOf_iff_prefix,
    List.prefix_iff_eq_take, List.length_map, ← List.map_take, sameIgnoringCase, beq_iff_eq,
    eq_comm]

theorem byteLength_eq_of_sameIgnoringCase {s t : List Char} (h : sameIgnoringCase s t = true) :
    byteLength s = byteLength t := by
  rw [← byteLength_map_toLower s, beq_iff_eq.mp h, byteLength_map_toLower]

end Text

namespace Tag

theorem isAscii_isBreak : Text.IsAscii isBreak :=
  ((Text.IsAscii.beq (by decide)).or (.beq (by decide))).or .isBlank

theorem all_head_bytes {test : Char → Bool} (ascii : Text.IsAscii test) (s : List Char) :
    (Text.bytes s)[0]?.all (Text.ofByte test) = s.head?.all test := by
  cases s with
  | nil => rfl
  | cons x t =>
      obtain ⟨b, first, answers⟩ := Text.exists_head_bytes x t
      simp [first, answers test ascii]

/-- The name of an end tag ends after its last byte where it ends after its last character. -/
theorem all_bytes_isBreak {s tag : List Char}
    (same : Text.sameIgnoringCase (s.take tag.length) tag = true) :
    (Text.bytes s)[Text.byteLength tag]?.all (Text.ofByte isBreak) =
      (s.drop tag.length).head?.all isBreak := by
  have first := congrArg (·[0]?) (Text.drop_bytes s tag.length)
  rw [Text.byteLength_eq_of_sameIgnoringCase same, List.getElem?_drop, Nat.add_zero] at first
  rw [first, all_head_bytes isAscii_isBreak]

theorem startsEndTagBytes_bytes (s tag : List Char) :
    startsEndTagBytes (Text.bytes s) tag = pure (startsEndTag tag s) := by
  have mark := Text.isPrefixOf_bytes ['<', '/'] s
  unfold startsEndTagBytes
  rw [mark]
  dsimp only
  split
  · next both =>
    rw [Bool.and_eq_true, List.isPrefixOf_iff_prefix, decide_eq_true_eq] at both
    obtain ⟨⟨t, rfl⟩, inside⟩ := both
    have name : ((Text.bytes (['<', '/'] ++ t)).take (2 + Text.byteLength tag)).drop 2 =
        (Text.bytes t).take (Text.byteLength tag) := by
      rw [List.drop_take, Nat.add_sub_cancel_left]
      rfl
    have next : (Text.bytes (['<', '/'] ++ t))[2 + Text.byteLength tag]? =
        (Text.bytes t)[Text.byteLength tag]? := by
      rw [← List.getElem?_drop]
      rfl
    have room : 2 ≤ ((Text.bytes (['<', '/'] ++ t)).take (2 + Text.byteLength tag)).length := by
      rw [List.length_take]
      omega
    rw [Checked.bytesTo_of_le inside, pure_bind, Checked.bytesFrom_of_le room, pure_bind, name,
      next, Text.map_lowerByte_take]
    change _ = pure (Text.sameIgnoringCase (t.take tag.length) tag &&
      (t.drop tag.length).head?.all isBreak)
    cases same : Text.sameIgnoringCase (t.take tag.length) tag with
    | true => rw [all_bytes_isBreak same]
    | false => rfl
  · next missing =>
    unfold startsEndTag
    split
    · next t =>
      have short : ¬ 2 + Text.byteLength tag ≤ 1 + (1 + Text.byteLength t) := by
        rw [Bool.and_eq_true, decide_eq_true_eq, Text.length_bytes] at missing
        exact fun fits => missing ⟨rfl, fits⟩
      cases same : Text.sameIgnoringCase (t.take tag.length) tag with
      | true =>
          have length := Text.byteLength_eq_of_sameIgnoringCase same
          have bound := Text.byteLength_take_le t tag.length
          omega
      | false => rfl
    · rfl

theorem prefix_of_startsEndTag {tag s : List Char} (h : startsEndTag tag s = true) :
    ['<', '/'] <+: s := by
  unfold startsEndTag at h
  split at h
  · next t => exact ⟨t, rfl⟩
  · cases h

theorem isAscii_isNameStart : Text.IsAscii isNameStart := by
  refine ⟨false, fun c large => ?_⟩
  have above : 128 ≤ c.val.toNat := large
  have upper : c.isUpper = false := by
    refine decide_eq_false fun inside => ?_
    have last : c.val.toNat ≤ 90 := inside.2
    omega
  have lower : c.isLower = false := by
    refine Bool.and_eq_false_iff.mpr (.inr (decide_eq_false fun inside => ?_))
    have last : c.val.toNat ≤ 122 := inside
    omega
  exact Bool.or_eq_false_iff.mpr ⟨upper, lower⟩

end Tag

/-! ## Markup -/

namespace Markup

theorem ofBytes_bytes (s : List Char) : ofBytes (Text.bytes ('<' :: s)) = classify s := by
  cases s with
  | nil => rfl
  | cons x t =>
      obtain ⟨b, first, answers⟩ := Text.exists_head_bytes x t
      have second : (Text.bytes ('<' :: x :: t))[1]? = some b := first
      unfold ofBytes
      simp only [second, answers _ (.beq (d := '!') (by decide)),
        answers _ (.beq (d := '/') (by decide)), answers _ (.beq (d := '?') (by decide)),
        answers _ Tag.isAscii_isNameStart, Text.isPrefixOf_bytes]
      by_cases bang : x = '!'
      · subst bang
        rfl
      · by_cases solidus : x = '/'
        · subst solidus
          cases t with
          | nil => rfl
          | cons y u =>
              obtain ⟨e, third, answers'⟩ := Text.exists_head_bytes y u
              have third' : (Text.bytes ('<' :: '/' :: y :: u))[2]? = some e := third
              simp only [third', answers' _ (.beq (d := '>') (by decide)),
                answers' _ Tag.isAscii_isNameStart]
              rfl
        · simp [bang, solidus, classify]

/-- What markup of each kind starts with in any case. -/
def mark : Markup → List Char
  | eof | startTag | stray => ['<']
  | comment => Comment.opener
  | cdata => TextNode.sectionStart
  | doctype | declaration => ['<', '!']
  | endTagEof | endTag | badEndTag => ['<', '/']
  | namelessEndTag => ['<', '/', '>']
  | instruction => ['<', '?']

theorem mark_ascii (markup : Markup) : Text.AllAscii markup.mark := by
  cases markup <;> decide

theorem mark_classify (s : List Char) : (classify s).mark <+: '<' :: s := by
  unfold classify
  split
  · exact List.prefix_rfl
  · next t =>
    have bang : ['<', '!'] <+: '<' :: '!' :: t := ⟨t, rfl⟩
    split
    · next starts =>
      obtain ⟨u, rfl⟩ := List.isPrefixOf_iff_prefix.mp starts
      exact ⟨u, rfl⟩
    · split
      · exact bang
      · split
        · next starts =>
          obtain ⟨u, rfl⟩ := List.isPrefixOf_iff_prefix.mp starts
          exact ⟨u, rfl⟩
        · exact bang
  · exact ⟨[], rfl⟩
  · next c t =>
    split
    · next close => exact ⟨t, by rw [beq_iff_eq.mp close]; rfl⟩
    · split <;> exact ⟨c :: t, rfl⟩
  · next c t _ _ _ =>
    split
    · exact ⟨c :: t, rfl⟩
    · split
      · next question => exact ⟨t, by rw [beq_iff_eq.mp question]; rfl⟩
      · exact ⟨c :: t, rfl⟩

end Markup

end Stencil
