import Stencil.Proofs.Bytewise.Leaf
import Stencil.Proofs.Bytewise.Siblings

/-! # CDATA sections by bytes

Scans a CDATA section like a list of siblings of its own in which there is nothing but text. The
loop that would go from one sibling to the next comes round at most once, since the first text
already goes on to the end of the section.
-/

namespace Stencil

namespace Scanner

section

variable (source : List Char) (o : Options)

/-- Scans texts up to the end of the section or of the template, after those in `nodes`, which are
    kept newest first. The loop comes round at most `n` times. -/
def sectionTexts : (n : Nat) → (nodes : List Node) → Scanner (List Node)
  | 0, _ => throw .endless
  | n + 1, nodes => do
    let rest ← rest source
    if (Text.bytes TextNode.sectionEnd).isPrefixOf (Text.bytes rest) || rest.isEmpty then
      return nodes
    else
      let t ← text source o .cData
      sectionTexts n (Siblings.push (.text t) nodes)

/-- Consumes the end of the section. -/
def sectionEnd : Scanner Unit := do
  let ends ← atEnd source
  if ends then report source .eofInCdata 0
  else advance source (Text.byteLength TextNode.sectionEnd)

/-- Scans a CDATA section, and settles its text. -/
def cdata (inPre preParent : Bool) : Scanner (List Node) := do
  advance source (Text.byteLength TextNode.sectionStart)
  let texts ← sectionTexts source o (Text.byteLength source + 1) []
  let nodes ← Siblings.settleChecked o source inPre preParent texts.reverse
  sectionEnd source
  return nodes

end

variable {source : List Char} {o : Options} {c : Cursor}

theorem sectionTexts_of_end (h : c.Within source) (o : Options) (n : Nat) (nodes : List Node)
    (ends : TextNode.sectionEnd <+: c.rest ∨ c.rest = []) (log : Log) :
    (sectionTexts source o (n + 1) nodes).run ⟨c.position, log⟩ =
      pure (nodes, ⟨c.position, log⟩) := by
  rw [sectionTexts]
  simp [rest_run h, Text.isPrefixOf_bytes, ends]

/-- Where the text of a section ends. -/
theorem ends_section (s : List Char) :
    TextNode.sectionEnd <+: s.drop ((Text.find TextNode.sectionEnd s).getD s.length) ∨
      s.drop ((Text.find TextNode.sectionEnd s).getD s.length) = [] := by
  cases found : Text.find TextNode.sectionEnd s with
  | some n => exact .inl (List.isPrefixOf_iff_prefix.mp (Text.seek_holds found))
  | none => exact .inr (List.drop_length)

/-- A text that does not start with the end of the section goes on to it. -/
theorem lengthAt_section (o : Options) {s : List Char}
    (goes : ¬ (TextNode.sectionEnd <+: s ∨ s = [])) :
    TextNode.lengthAt o .cData s = (Text.find TextNode.sectionEnd s).getD s.length := by
  cases s with
  | nil => exact absurd (.inr rfl) goes
  | cons x t =>
      have here : TextNode.sectionEnd.isPrefixOf (x :: t) = false := by
        rw [Bool.eq_false_iff, ne_eq, List.isPrefixOf_iff_prefix]
        exact fun starts => goes (.inl starts)
      have same : TextNode.endsAt o .cData = TextNode.sectionEnd.isPrefixOf := rfl
      rw [TextNode.lengthAt, same, Text.find, Text.seek, here]
      cases Text.seek TextNode.sectionEnd.isPrefixOf t <;> rfl

/-- The texts of a section are the one that a reader finds, if it finds any. -/
theorem sectionTexts_run (h : c.Within source) (o : Options) {rounds : Nat}
    (enough : c.rest.length ≤ rounds) (n : Nat)
    (length : (Text.find TextNode.sectionEnd c.rest).getD c.rest.length = n) (log : Log) :
    (sectionTexts source o (rounds + 1) []).run ⟨c.position, log⟩ =
      pure ((if n = 0 then none else some (TextNode.mk (c.rest.take n)
        (c.locationTo (c.skip n)))).toList.map .text, ⟨(c.skip n).position, log⟩) := by
  have ends := ends_section c.rest
  rw [length] at ends
  by_cases stop : TextNode.sectionEnd <+: c.rest ∨ c.rest = []
  · have none : n = 0 := by
      rw [← length]
      rcases stop with starts | empty
      · have here := List.isPrefixOf_iff_prefix.mpr starts
        cases rest : c.rest with
        | nil => rw [rest] at here; cases here
        | cons x t =>
            rw [rest] at here
            rw [Text.find, Text.seek, if_pos here]
            rfl
      · rw [empty]
        rfl
    have same : (c.skip 0).position = c.position := rfl
    rw [sectionTexts_of_end h o rounds [] stop, none, same]
    rfl
  · have whole := (lengthAt_section o stop).trans length
    have some : n ≠ 0 := by
      have positive := TextNode.lengthAt_pos o .cData fun empty => stop (.inr empty)
      omega
    have one := text_performs h o .cData log
    simp only [TextNode.read, whole, Log.append_empty] at one
    have goes : (TextNode.sectionEnd.isPrefixOf c.rest || c.rest.isEmpty) = false := by
      rw [Bool.eq_false_iff, ne_eq, Bool.or_eq_true, List.isPrefixOf_iff_prefix, List.isEmpty_iff]
      exact stop
    obtain ⟨rounds, rfl⟩ : ∃ m, rounds = m + 1 := by
      have chars : 0 < c.rest.length := List.length_pos_iff.mpr fun empty => stop (.inr empty)
      exact Nat.exists_eq_add_of_le' (Nat.lt_of_lt_of_le chars enough)
    rw [sectionTexts]
    simp only [StateT.run_bind, rest_run h, pure_bind, Text.isPrefixOf_bytes, goes,
      Bool.false_eq_true, if_false, one, sectionTexts_of_end (h.skip n) o _ _ ends, some]
    rfl

theorem sectionEnd_run (h : c.Within source) (ends : TextNode.sectionEnd <+: c.rest ∨ c.rest = [])
    (log : Log) :
    (sectionEnd source).run ⟨c.position, log⟩ =
      pure ((), ⟨(c.skip TextNode.sectionEnd.length).position,
        log ++ if c.atEnd then .error .eofInCdata c.position else .empty⟩) := by
  rcases ends with mark | empty
  · have goes : c.atEnd = false := by
      obtain ⟨t, rest⟩ := mark
      rw [Cursor.atEnd, ← rest]
      rfl
    have step := advance_ascii_run h mark (by decide) log
    simp only [sectionEnd, StateT.run_bind, atEnd_run h, pure_bind, goes, Bool.false_eq_true,
      if_false, Log.append_empty]
    exact step
  · have stays : (c.skip TextNode.sectionEnd.length).position = c.position := by
      rw [Cursor.skip, empty, List.take_nil]
      rfl
    have done : c.atEnd = true := by rw [Cursor.atEnd, empty]; rfl
    simp only [sectionEnd, StateT.run_bind, atEnd_run h, pure_bind, done, if_true,
      report_zero_run h, stays]

theorem cdata_performs (h : c.Within source) (o : Options) (inPre preParent : Bool)
    (starts : TextNode.sectionStart <+: c.rest) :
    (cdata source o inPre preParent).Performs c
      ⟨Siblings.settle o source inPre preParent ((TextNode.readSection c).value.toList.map .text),
        (TextNode.readSection c).cursor, (TextNode.readSection c).log⟩ := by
  intro log
  have step : (advance source (Text.byteLength TextNode.sectionStart)).run ⟨c.position, log⟩ =
      pure ((), ⟨(c.skip TextNode.sectionStart.length).position, log⟩) :=
    advance_ascii_run h starts (by decide) log
  have inner := h.skip TextNode.sectionStart.length
  have texts := sectionTexts_run inner o inner.length_rest_le _ rfl log
  have ends := ends_section (c.skip TextNode.sectionStart.length).rest
  have close := sectionEnd_run (inner.skip _) ends log
  have settled := Siblings.settleChecked_eq o inPre preParent h
    (TextNode.readSection_sound c).value
  have single (t : Option TextNode) : (t.toList.map Node.text).reverse = t.toList.map .text := by
    cases t <;> rfl
  simp only [TextNode.readSection] at settled
  simp only [cdata, StateT.run_bind, step, pure_bind, texts, single, settled, StateT.run_monadLift,
    monadLift_self, close, StateT.run_pure, TextNode.readSection]

end Scanner

end Stencil
