import Stencil.Proofs.Apart
import Stencil.Proofs.Bytewise.Tag

/-! # Recognising end tags

Whether an element ends is found out before its end tag is read, and in another way: as many
characters as its tag has are compared with it, and the next one is looked at, while the reader of
tags goes on to the first character that ends a name. Both find the same name. So what closes an
element is read as the end tag that it was taken for, up to the end of its name at least, and only
elements of one name, up to case, can end at one place.
-/

namespace Stencil

theorem Text.sameIgnoringCase_congr {s t : List Char} (h : sameIgnoringCase s t = true)
    (u : List Char) : sameIgnoringCase s u = sameIgnoringCase t u := by
  rw [sameIgnoringCase, beq_iff_eq.mp h, sameIgnoringCase]

namespace Tag

/-- `name` is the longest run at the start of `s` of characters that do not end a name. -/
structure IsNameOf (s name : List Char) : Prop where
  starts : name <+: s
  unbroken : ∀ c ∈ name, isBreak c = false
  longest : ∀ run, run <+: s → (∀ c ∈ run, isBreak c = false) → run <+: name

/-- At `c`, looking for the end tag of `tag` and reading an end tag agree, whether characters or
    bytes are looked at. -/
structure FoundAsRead (o : Options) (vPre : Bool) (tag : List Char) (c : Cursor) : Prop where
  found : startsEndTag tag c.rest = true ↔ ['<', '/'] <+: c.rest ∧
    Text.sameIgnoringCase (read o .closing vPre c).value.name tag = true
  name : IsNameOf (c.rest.drop 2) (read o .closing vPre c).value.name
  found_bytes : startsEndTagBytes (Text.bytes c.rest) tag = pure (startsEndTag tag c.rest)
  read_bytes : ∀ source, c.Within source → ['<', '/'] <+: c.rest →
    (Scanner.tag source o .closing vPre).Performs c (read o .closing vPre c)

theorem isNameOf_nameAt (kind : TagKind) (s : List Char) :
    IsNameOf (s.drop (markLength kind)) (nameAt kind s) where
  starts := List.takeWhile_prefix _
  unbroken d hd := by simpa using List.all_eq_true.mp List.all_takeWhile d hd
  longest := by
    rintro run ⟨more, whole⟩ unbroken
    rw [nameAt, ← whole, List.takeWhile_append_of_pos fun d hd => by simp [unbroken d hd]]
    exact List.prefix_append _ _

theorem foundAsRead {tag : List Char} (named : WellNamed tag) (o : Options) (vPre : Bool)
    (c : Cursor) : FoundAsRead o vPre tag c where
  found := startsEndTag_iff named
  name := isNameOf_nameAt .closing c.rest
  found_bytes := startsEndTagBytes_bytes c.rest tag
  read_bytes _ within opened := Scanner.tag_performs within o .closing vPre opened

/-- Of the elements that could be open, those end at one place that have the same tag up to case. -/
theorem startsEndTag_iff_sameIgnoringCase {tag other s : List Char} (named : WellNamed tag)
    (named' : WellNamed other) (h : startsEndTag tag s = true) :
    startsEndTag other s = true ↔ Text.sameIgnoringCase tag other = true := by
  obtain ⟨opened, same⟩ := (startsEndTag_iff named).mp h
  rw [startsEndTag_iff named', IsEndTagOf, Text.sameIgnoringCase_congr same]
  exact and_iff_right opened

end Tag

namespace State

variable {o : Options} {source : List Char} {s : State} {e : OpenElement}
  {stack : List OpenElement}

/-- At `d` the end tag at the cursor has been read, its name is `tag` up to case, and at least the
    mark and the whole of this name lie before `d`. -/
structure TakesInEndTag (o : Options) (s : State) (tag : List Char) (d : Cursor) : Prop where
  read : d = (Tag.read o .closing s.flags.vPre s.cursor).cursor
  name : Text.sameIgnoringCase (Tag.read o .closing s.flags.vPre s.cursor).value.name tag = true
  whole : '<' :: '/' :: (Tag.read o .closing s.flags.vPre s.cursor).value.name <+:
    s.cursor.textTo d
  bytes : s.cursor.position.offset + (2 + Text.byteLength tag) ≤ d.position.offset

theorem takesInEndTag_closeElement (named : Tag.WellNamed e.element.tag)
    (h : Tag.startsEndTag e.element.tag s.cursor.rest = true) :
    TakesInEndTag o s e.element.tag (s.closeElement o source e stack).cursor := by
  obtain ⟨opened, same⟩ := (Tag.startsEndTag_iff named).mp h
  rw [(closeElement_matched o source e stack h).1]
  have text := Tag.textTo_read_closing o s.flags.vPre opened
  have forward := (s.cursor.reaches_skip _).trans
    (Tag.reaches_read o .closing s.flags.vPre s.cursor)
  refine ⟨rfl, same, ?_, ?_⟩
  · rw [text]
    exact ⟨_, rfl⟩
  · have width := Text.byteLength_eq_of_sameIgnoringCase same
    have mark : '<'.utf8Size = 1 ∧ '/'.utf8Size = 1 := ⟨rfl, rfl⟩
    rw [forward.offset_eq, text]
    simp only [Text.byteLength_cons, Text.byteLength_append, mark.1, mark.2]
    omega

end State

/-- Whatever becomes of an element, it keeps the tag of the start tag that it was made of. -/
theorem Node.Derived.wellNamed {o : Options} {source : List Char} {flags : Flags} {e : Element}
    {children : List Node} (h : (Node.element e children).Derived o source flags) :
    Tag.WellNamed e.tag := by
  obtain ⟨s, _, opens, finished, _⟩ := h.exists_opens
  rw [finished.tag_eq]
  exact State.wellNamed_started opens.markup

open State in
/-- Finding an end tag agrees with reading it, at every place of every text and for every tag that
    is not empty and holds no character that ends a name. All tags of elements are such tags, those
    of open and of finished elements and of elements without content. Therefore at one place only
    elements of one name, up to case, can end, and an element that ends with an end tag of its name
    takes in all of this name. -/
theorem endTags_recognised (o : Options) (source : List Char) :
    (∀ tag vPre c, Tag.WellNamed tag → Tag.FoundAsRead o vPre tag c) ∧
    (∀ tag other s, Tag.WellNamed tag → Tag.WellNamed other → Tag.startsEndTag tag s = true →
      (Tag.startsEndTag other s = true ↔ Text.sameIgnoringCase tag other = true)) ∧
    (∀ s, Reachable o source s →
      (s.Opens o → Tag.WellNamed (s.started o).1.tag) ∧
      (∀ e ∈ s.stack, Tag.WellNamed e.element.tag) ∧
      ∀ e stack, s.atEnd = true → s.stack = e :: stack →
        Tag.startsEndTag e.element.tag s.cursor.rest = true →
        TakesInEndTag o s e.element.tag (s.step o source).cursor) ∧
    ∀ path e children, Node.at? (parse o source).root.children path = some (.element e children) →
      Tag.WellNamed e.tag := by
  refine ⟨fun _ vPre c named => Tag.foundAsRead named o vPre c,
    fun _ _ _ => Tag.startsEndTag_iff_sameIgnoringCase, fun s reached => ?_, ?_⟩
  · have names := reached.disciplined.names
    refine ⟨fun opens => wellNamed_started opens.markup, names, fun e stack ends top found => ?_⟩
    rw [step_eq_closeElement o source ends top]
    exact takesInEndTag_closeElement (names e (by simp [top])) found
  · intro path e children found
    obtain ⟨_, derived⟩ := exists_derived_of_at? found
    exact derived.wellNamed

open State in
/-- An end tag that is cut off behind a character of two bytes closes the element that it names. It
    would not close one whose name differs in that character, even if only in its case. -/
theorem endTags_recognised_cut :
    ∃ s e b children, (initial "<bé>x</Bé".toList).Opens .base ∧
      Tag.WellNamed ((initial "<bé>x</Bé".toList).started .base).1.tag ∧
      Reachable .base "<bé>x</Bé".toList s ∧ s.atEnd = true ∧ s.stack = [e] ∧
      e.element.tag = "bé".toList ∧ s.cursor.rest = "</Bé".toList ∧
      Tag.WellNamed e.element.tag ∧ Tag.startsEndTag e.element.tag s.cursor.rest = true ∧
      Tag.FoundAsRead .base s.flags.vPre e.element.tag s.cursor ∧
      Tag.WellNamed "bÉ".toList ∧ Tag.startsEndTag "bÉ".toList s.cursor.rest = false ∧
      TakesInEndTag .base s e.element.tag (s.step .base "<bé>x</Bé".toList).cursor ∧
      Node.at? (parse .base "<bé>x</Bé".toList).root.children [0] = some (.element b children) ∧
      Tag.WellNamed b.tag := by
  generalize text : "<bé>x</Bé".toList = source
  have opens : (initial source).Opens .base := by
    subst text
    exact ⟨by decide +kernel, by decide +kernel, by decide +kernel, by decide +kernel,
      by decide +kernel⟩
  have reached :
      Reachable .base source (((initial source).step .base source).step .base source) := by
    subst text
    exact .step (.step .initial (by decide +kernel)) (by decide +kernel)
  have tags : (((initial source).step .base source).step .base source).stack.map
      (fun e => e.element.tag) = ["bé".toList] := by
    subst text
    decide +kernel
  have ends : (((initial source).step .base source).step .base source).atEnd = true := by
    subst text
    decide +kernel
  have rest : (((initial source).step .base source).step .base source).cursor.rest =
      "</Bé".toList := by
    subst text
    decide +kernel
  have element : ((Node.at? (parse .base source).root.children [0]).any
      fun node => node.kind == .element) = true := by
    subst text
    decide +kernel
  revert reached tags ends rest
  generalize ((initial source).step .base source).step .base source = s
  intro reached tags ends rest
  obtain ⟨e, more, stack, tag, tags⟩ := List.map_eq_cons_iff.mp tags
  cases List.map_eq_nil_iff.mp tags
  obtain ⟨agrees, single, states, nodes⟩ := endTags_recognised .base source
  obtain ⟨_, names, takes⟩ := states s reached
  have named : Tag.WellNamed e.element.tag := names e (by simp [stack])
  have found : Tag.startsEndTag e.element.tag s.cursor.rest = true := by
    rw [tag, rest]
    decide
  have other : Tag.WellNamed "bÉ".toList := ⟨by decide, by simp [Tag.isBreak, Text.isBlank]⟩
  have apart : Tag.startsEndTag "bÉ".toList s.cursor.rest = false := by
    rw [Bool.eq_false_iff, ne_eq, single e.element.tag _ _ named other found, tag]
    decide
  obtain ⟨node, here, kind⟩ := (Option.any_eq_true _ _).mp element
  cases node with
  | element b children =>
      exact ⟨s, e, b, children, opens, (states _ .initial).1 opens, reached, ends, stack, tag, rest,
        named, found, agrees _ _ _ named, other, apart, takes e [] ends stack found, here,
        nodes [0] b children here⟩
  | text | comment | interpolation => cases kind

end Stencil
