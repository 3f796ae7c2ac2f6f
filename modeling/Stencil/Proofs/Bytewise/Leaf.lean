import Stencil.Proofs.Bytewise.Scanner
import Stencil.Proofs.Spans.Leaf

/-! # Leaves by bytes

Scans texts and interpolations. Each scanner does what the reader of the same construct does, which
works on characters and cannot fail.
-/

namespace Stencil

/-- The smaller of two numbers that may be missing. -/
def earliest (a b : Option Nat) : Option Nat :=
  (a.toList ++ b.toList).min?

namespace Scanner

section

variable (source : List Char) (o : Options)

/-- Consumes `n` bytes of text. -/
def textData (mode : TextMode) (n : Nat) : Scanner (List Char) := do
  let rest ← rest source
  let raw ← Checked.ofFault (Text.cut rest 0 n)
  advance source n
  let isPlain := mode == .rawText || mode == .cData ||
    ((Text.bytes raw).findIdx? (Text.ofByte (· == '&'))).isNone
  return if isPlain then raw else o.decodeReferences raw (mode == .attributeValue)

/-- Where the run of text ends that goes on with the bytes `tail`. -/
def textEnd? (mode : TextMode) (tail : List UInt8) : Option Nat :=
  match mode with
  | .cData => Text.findBytes (Text.bytes TextNode.sectionEnd) tail
  | .data | .rcData | .rawText | .attributeValue =>
    earliest (tail.findIdx? (Text.ofByte (· == '<')))
      (if o.openDelimiter.isEmpty then none
        else Text.findBytes (Text.bytes o.openDelimiter) tail)

/-- Scans a run of text. -/
def text (mode : TextMode) : Scanner TextNode := do
  let rest ← rest source
  let first := rest.head?.elim 0 Char.utf8Size
  let tail ← Checked.bytesFrom (Text.bytes rest) first
  let start ← position
  let content ← textData source o mode
    ((textEnd? o mode tail).elim (Text.byteLength rest) (· + first))
  return ⟨content, ← selection source start⟩

/-- Where the first and the last character of a text stand that are no spaces. -/
def contentRange (raw : List Char) : Checked (Nat × Nat) :=
  if (Text.trim raw).isEmpty then return (0, 0)
  else do
    let lo ← Checked.sub (Text.byteLength raw) (Text.byteLength (Text.trimStart raw))
    return (lo, lo + Text.byteLength (Text.trim raw))

/-- The location of a text that starts at a position, without the spaces around it. -/
def contentLoc (start : Position) (raw : List Char) : Scanner Location := do
  let (lo, hi) ← contentRange raw
  between source (← positionAt source start lo) (← positionAt source start hi)

/-- Scans an interpolation. One that is not closed is reported. -/
def interpolation (mode : TextMode) : Scanner (Option Interpolation) := do
  let openLength := Text.byteLength o.openDelimiter
  let rest ← rest source
  let tail ← Checked.bytesFrom (Text.bytes rest) openLength
  match Text.findBytes (Text.bytes o.closeDelimiter) tail with
  | none =>
    report source .missingInterpolationEnd 0
    return none
  | some rawLength =>
    let start ← position
    advance source openLength
    let inner ← position
    let raw ← Checked.ofFault (Text.cut rest openLength (openLength + rawLength))
    let decoded ← textData source o mode rawLength
    let loc ← contentLoc source inner raw
    advance source (Text.byteLength o.closeDelimiter)
    return some ⟨⟨Text.trim decoded, false, loc⟩, ← selection source start⟩

end

end Scanner

/-! ## Searches for the end of a text -/

section

variable {f : Nat → Nat}

theorem earliest_map (mono : ∀ {m n}, m ≤ n → f m ≤ f n) (a b : Option Nat) :
    earliest (a.map f) (b.map f) = (earliest a b).map f := by
  cases a with
  | none => cases b <;> rfl
  | some m =>
      cases b with
      | none => rfl
      | some n =>
          change some (min (f m) (f n)) = some (f (min m n))
          rcases Nat.le_total m n with le | le
          · rw [Nat.min_eq_left le, Nat.min_eq_left (mono le)]
          · rw [Nat.min_eq_right le, Nat.min_eq_right (mono le)]

theorem earliest_zero_left (b : Option Nat) : earliest (some 0) b = some 0 := by
  cases b with
  | none => rfl
  | some n => exact congrArg some (Nat.zero_min n)

theorem earliest_zero_right (a : Option Nat) : earliest a (some 0) = some 0 := by
  cases a with
  | none => rfl
  | some n => exact congrArg some (Nat.min_zero n)

end

namespace Text

variable {p q : List Char → Bool}

/-- A search for two things at once ends where the first of them is found. -/
theorem seek_or (s : List Char) :
    seek (fun t => p t || q t) s = earliest (seek p s) (seek q s) := by
  induction s with
  | nil => cases hp : p [] <;> cases hq : q [] <;> simp [seek, hp, hq, earliest]
  | cons c s ih =>
      simp only [seek, ih]
      cases hp : p (c :: s) with
      | true => exact (earliest_zero_left _).symm
      | false =>
          cases hq : q (c :: s) with
          | true => exact (earliest_zero_right _).symm
          | false => exact (earliest_map (fun le => Nat.succ_le_succ le) _ _).symm

theorem seek_false (s : List Char) : seek (fun _ => false) s = none := by
  induction s with
  | nil => rfl
  | cons c s ih => simp [seek, ih]

/-- A search for a character ends where those before it end. -/
theorem seek_head (test : Char → Bool) (s : List Char) :
    seek (fun t => t.head?.any test) s =
      if s.any test then some (s.takeWhile fun c => !test c).length else none := by
  induction s with
  | nil => rfl
  | cons c s ih =>
      rw [seek, ih]
      cases answer : test c <;> cases found : s.any test <;> simp [answer, found]

theorem findIdx?_bytes_eq_seek {test : Char → Bool} (ascii : IsAscii test) (s : List Char) :
    (bytes s).findIdx? (ofByte test) =
      (seek (fun t => t.head?.any test) s).map fun n => byteLength (s.take n) := by
  rw [findIdx?_bytes ascii, seek_head]
  split
  · rw [Option.map_some, take_length_takeWhile]
  · rfl

end Text

namespace Scanner

variable {source : List Char} {o : Options} {c : Cursor}

/-- A search of the bytes after the first character ends where that of the characters does. -/
theorem textEnd?_bytes (o : Options) (mode : TextMode) (s : List Char) :
    textEnd? o mode (Text.bytes s) =
      (Text.seek (TextNode.endsAt o mode) s).map fun n => Text.byteLength (s.take n) := by
  have plain : earliest ((Text.bytes s).findIdx? (Text.ofByte (· == '<')))
      (if o.openDelimiter.isEmpty then none
        else Text.findBytes (Text.bytes o.openDelimiter) (Text.bytes s)) =
      (Text.seek (fun t => t.head? == some '<' ||
        (!o.openDelimiter.isEmpty && o.openDelimiter.isPrefixOf t)) s).map
          fun n => Text.byteLength (s.take n) := by
    have chevron (t : List Char) : t.head?.any (· == '<') = (t.head? == some '<') := by
      cases t <;> rfl
    have delimiter : (if o.openDelimiter.isEmpty then none
        else Text.findBytes (Text.bytes o.openDelimiter) (Text.bytes s)) =
        (Text.seek (fun t => !o.openDelimiter.isEmpty && o.openDelimiter.isPrefixOf t) s).map
          fun n => Text.byteLength (s.take n) := by
      cases empty : o.openDelimiter.isEmpty with
      | true => simp [Text.seek_false]
      | false => simp [Text.findBytes_bytes, Text.find]
    rw [Text.findIdx?_bytes_eq_seek (.beq (by decide)), delimiter,
      earliest_map (f := fun n => Text.byteLength (s.take n)) (Text.byteLength_take_le_take s),
      ← Text.seek_or]
    simp only [chevron]
  cases mode with
  | cData => exact Text.findBytes_bytes TextNode.sectionEnd s
  | data | rcData | rawText | attributeValue => exact plain

theorem findIdx?_ampersand (raw : List Char) :
    ((Text.bytes raw).findIdx? (Text.ofByte (· == '&'))).isNone = !raw.contains '&' := by
  rw [Text.findIdx?_bytes (.beq (by decide)), List.contains_eq_any_beq]
  have flip : (fun c => c == '&') = ('&' == ·) := by
    funext c
    exact BEq.comm
  rw [flip]
  cases raw.any ('&' == ·) <;> rfl

theorem textData_run (h : c.Within source) (mode : TextMode) (n : Nat) (log : Log) :
    (textData source o mode (Text.byteLength (c.rest.take n))).run ⟨c.position, log⟩ =
      pure (o.decode mode (c.rest.take n), ⟨(c.skip n).position, log⟩) := by
  have decoded (raw : List Char) :
      (if mode == .rawText || mode == .cData || !raw.contains '&' then raw
        else o.decodeReferences raw (mode == .attributeValue)) = o.decode mode raw := by
    unfold Options.decode
    cases mode <;> cases raw.contains '&' <;> rfl
  simp only [textData, StateT.run_bind, rest_run h, pure_bind, Text.cut_zero, Checked.ofFault,
    StateT.run_monadLift, monadLift_self, advance_run h, findIdx?_ampersand, StateT.run_pure,
    decoded]

theorem textData_takeWhile_run (h : c.Within source) (mode : TextMode) (p : Char → Bool)
    (log : Log) :
    (textData source o mode (Text.byteLength (c.rest.takeWhile p))).run ⟨c.position, log⟩ =
      pure (o.decode mode (c.rest.takeWhile p),
        ⟨(c.skip (c.rest.takeWhile p).length).position, log⟩) := by
  have run := textData_run (o := o) h mode (c.rest.takeWhile p).length log
  rw [Text.take_length_takeWhile] at run
  exact run

/-- The number of bytes in a run of text. -/
theorem textEnd?_elim (o : Options) (mode : TextMode) (s : List Char) :
    (textEnd? o mode (Text.bytes (s.drop 1))).elim (Text.byteLength s)
        (· + s.head?.elim 0 Char.utf8Size) =
      Text.byteLength (s.take (TextNode.lengthAt o mode s)) := by
  rw [textEnd?_bytes]
  cases s with
  | nil =>
      cases found : Text.seek (TextNode.endsAt o mode) [] with
      | none => simp [found]
      | some n => simp [found]
  | cons x s =>
      rw [TextNode.lengthAt, List.take_succ_cons, Text.byteLength_cons]
      cases found : Text.seek (TextNode.endsAt o mode) s with
      | none => simp [found]
      | some n => simp [found, Nat.add_comm]

theorem text_performs (h : c.Within source) (o : Options) (mode : TextMode) :
    (text source o mode).Performs c (TextNode.read o mode c) := by
  intro log
  simp only [text, StateT.run_bind, rest_run h, pure_bind, Text.head_utf8Size,
    Checked.bytesFrom_take, StateT.run_monadLift, monadLift_self, position, StateT.run_get]
  rw [← Text.head_utf8Size, textEnd?_elim]
  simp only [textData_run h, selection_run h (c.reaches_skip _), pure_bind, StateT.run_pure]
  rw [TextNode.read, Log.append_empty]

/-- The padding of a text counted in bytes is the padding counted in characters. -/
theorem contentRange_eq (raw : List Char) :
    contentRange raw =
      let lo := if (Text.trim raw).isEmpty then 0 else raw.length - (Text.trimStart raw).length
      pure (Text.byteLength (raw.take lo),
        Text.byteLength (raw.take (lo + (Text.trim raw).length))) := by
  unfold contentRange
  cases empty : (Text.trim raw).isEmpty with
  | true => simp [List.isEmpty_iff.mp empty]
  | false =>
      have parts : raw = raw.take (raw.length - (Text.trimStart raw).length) ++
          Text.trimStart raw := by
        have suffix : Text.trimStart raw <:+ raw := List.dropWhile_suffix _
        have start := List.suffix_iff_eq_drop.mp suffix
        have whole := List.take_append_drop (raw.length - (Text.trimStart raw).length) raw
        rw [← start] at whole
        exact whole.symm
      have begins : Text.trim raw <+: Text.trimStart raw := by
        have ends := List.dropWhile_suffix Text.isSpace (l := (Text.trimStart raw).reverse)
        rw [← List.reverse_prefix, List.reverse_reverse] at ends
        exact ends
      generalize raw.length - (Text.trimStart raw).length = n at parts ⊢
      generalize Text.trimStart raw = tail at parts begins ⊢
      generalize Text.trim raw = middle at begins ⊢
      have bytes := congrArg Text.byteLength parts
      rw [Text.byteLength_append] at bytes
      have rest : raw.drop n = tail := by
        have again := List.take_append_drop n raw
        exact List.append_cancel_left (again.trans parts)
      have length : Text.byteLength (raw.take (n + middle.length)) =
          Text.byteLength (raw.take n) + Text.byteLength middle := by
        rw [List.take_add, rest, ← List.prefix_iff_eq_take.mp begins, Text.byteLength_append]
      have less : Text.byteLength raw - Text.byteLength tail = Text.byteLength (raw.take n) := by
        omega
      simp [Checked.sub_of_le (Nat.le.intro (bytes.trans (Nat.add_comm _ _)).symm), less, length]

theorem contentLoc_run (h : c.Within source) (n : Nat) (s : Scan) :
    let raw := c.rest.take n
    let lo := if (Text.trim raw).isEmpty then 0 else raw.length - (Text.trimStart raw).length
    (contentLoc source c.position raw).run s =
      pure ((c.skip lo).locationTo (c.skip (lo + (Text.trim raw).length)), s) := by
  intro raw lo
  have bound : lo + (Text.trim raw).length ≤ n := by
    have most := Interpolation.length_trimmed_le raw
    have cut : raw.length ≤ n := List.length_take_le n c.rest
    change (if (Text.trim raw).isEmpty then 0 else raw.length - (Text.trimStart raw).length) + _ ≤ n
    split
    · next empty =>
      rw [List.isEmpty_iff.mp empty]
      exact Nat.zero_le _
    · omega
  have place (m : Nat) (le : m ≤ n) (s : Scan) :
      (positionAt source c.position (Text.byteLength (raw.take m))).run s =
        pure ((c.skip m).position, s) := by
    have run := positionAt_run h m s
    rw [List.take_take, Nat.min_eq_left le]
    exact run
  have ordered := c.skip_reaches_skip (Nat.le_add_right lo (Text.trim raw).length)
  have range : contentRange raw = pure (Text.byteLength (raw.take lo),
      Text.byteLength (raw.take (lo + (Text.trim raw).length))) := contentRange_eq raw
  simp only [contentLoc, range, StateT.run_bind, StateT.run_monadLift, monadLift_self, pure_bind,
    place _ (Nat.le_trans (Nat.le_add_right _ _) bound), place _ bound,
    between_run (h.skip lo) ordered]

theorem interpolation_run (h : c.Within source) (mode : TextMode)
    (starts : o.openDelimiter <+: c.rest) (log : Log) :
    (interpolation source o mode).run ⟨c.position, log⟩ =
      match Interpolation.read? o mode c with
      | some r => pure (some r.value, ⟨r.cursor.position, log ++ r.log⟩)
      | none => pure (none, ⟨c.position, log ++ .error .missingInterpolationEnd c.position⟩) := by
  have mark : Text.byteLength o.openDelimiter =
      Text.byteLength (c.rest.take o.openDelimiter.length) := by
    rw [← List.prefix_iff_eq_take.mp starts]
  have inner := h.skip o.openDelimiter.length
  simp only [interpolation, StateT.run_bind, rest_run h, pure_bind, mark,
    Checked.bytesFrom_take, StateT.run_monadLift, monadLift_self, Text.findBytes_bytes,
    Interpolation.read?, Cursor.rest_skip]
  cases found : Text.find o.closeDelimiter (c.rest.drop o.openDelimiter.length) with
  | none => simp [report_zero_run h]
  | some n =>
      have closes : o.closeDelimiter <+: (c.rest.drop o.openDelimiter.length).drop n :=
        List.isPrefixOf_iff_prefix.mp (Text.seek_holds found)
      have length : Text.byteLength (c.rest.take o.openDelimiter.length) +
          Text.byteLength ((c.rest.drop o.openDelimiter.length).take n) =
          Text.byteLength (c.rest.take (o.openDelimiter.length + n)) := by
        rw [List.take_add, Text.byteLength_append]
      have raw : (c.rest.take (o.openDelimiter.length + n)).drop o.openDelimiter.length =
          (c.rest.drop o.openDelimiter.length).take n := by
        rw [List.drop_take, Nat.add_sub_cancel_left]
      have data := textData_run (o := o) inner mode n log
      have close := advance_run (inner.skip n) o.closeDelimiter.length log
      rw [Cursor.rest_skip, Cursor.rest_skip, ← List.prefix_iff_eq_take.mp closes,
        Cursor.skip_skip _ n] at close
      have whole := (c.reaches_skip o.openDelimiter.length).trans
        (Cursor.reaches_skip _ (n + o.closeDelimiter.length))
      have content := contentLoc_run inner n
      rw [Cursor.rest_skip] at data content
      simp only [Option.map_some, StateT.run_bind, position, StateT.run_get, pure_bind,
        StateT.run_pure, advance_run h, length, Text.cut_take _ (Nat.le_add_right _ _), raw,
        Checked.ofFault, StateT.run_monadLift, monadLift_self, data, content, close,
        selection_run h whole, Log.append_empty]
      rfl

end Scanner

end Stencil
