import Stencil.Proofs.Run
import Stencil.Proofs.Spans.Tag

/-! # Reading ends

Every loop of the reader makes progress that can be seen from outside. A step takes away bytes of
the template, or it takes none and closes an element. A turn of the loop over an attribute list
always takes bytes. A tag goes back to the start of its attribute list at most once, since the
second pass cannot ask for a third one.
-/

namespace Stencil

namespace Cursor

/-- The number of bytes not read yet. -/
def unread (c : Cursor) : Nat :=
  Text.byteLength c.rest

theorem Reaches.unread_eq {a b : Cursor} (h : a.Reaches b) :
    a.unread = Text.byteLength (a.textTo b) + b.unread := by
  rw [unread, h.rest_eq, Text.byteLength_append, unread]

theorem Reaches.unread_le {a b : Cursor} (h : a.Reaches b) : b.unread ≤ a.unread := by
  rw [h.unread_eq]
  exact Nat.le_add_left _ _

/-- Whoever has fewer characters to read has fewer bytes to read. -/
theorem Reaches.unread_lt {a b : Cursor} (h : a.Reaches b)
    (fewer : b.rest.length < a.rest.length) : b.unread < a.unread := by
  have some : 0 < (a.textTo b).length := by
    rw [h.rest_eq, List.length_append] at fewer
    omega
  have bytes := Text.length_le_byteLength (a.textTo b)
  rw [h.unread_eq]
  omega

/-- Whoever has fewer characters to read is further on. -/
theorem Reaches.offset_lt {a b : Cursor} (h : a.Reaches b)
    (fewer : b.rest.length < a.rest.length) : a.position.offset < b.position.offset := by
  have bytes := h.unread_lt fewer
  rw [h.unread_eq] at bytes
  rw [h.offset_eq]
  omega

end Cursor

namespace State

variable {o : Options} {source : List Char} {s t : State}

/-- Less is left to do: bytes were taken, or none were and an element was closed. -/
def Progresses (s t : State) : Prop :=
  t.cursor.unread < s.cursor.unread ∨
    (t.cursor.unread = s.cursor.unread ∧ t.stack.length < s.stack.length)

theorem Opening.reaches (k : Opening o s t) : s.cursor.Reaches t.cursor := by
  have read := (Tag.read_sound o .opening s.flags.vPre s.cursor s.cursor s.cursor).reaches
  cases k with
  | empty =>
      rw [cursor_addElement]
      exact read
  | tooDeep =>
      rw [cursor_addElement]
      exact read
  | opened => exact read

theorem Step.reaches (k : Step o source s t) : s.cursor.Reaches t.cursor := by
  cases k with
  | close =>
      rw [closeElement_eq, cursor_addElement]
      exact s.reaches_afterEndTag o source _ _
  | text =>
      rw [readText, cursor_add]
      exact s.cursor.reaches_skip _
  | interpolation _ _ read =>
      rw [cursor_add]
      exact (Interpolation.read?_sound read).reaches
  | comment _ _ _ read =>
      rw [addComment, cursor_add]
      exact (Comment.place_of_read (Comment.eq_of_at? read)).1
  | cdata =>
      rw [readSection, cursor_addAll]
      exact (TextNode.readSection_sound s.cursor).reaches
  | namelessEndTag => exact s.cursor.reaches_skip 3
  | strayEndTag =>
      exact (Tag.read_sound o .closing s.flags.vPre s.cursor s.cursor s.cursor).reaches
  | startTag => exact (openElement_cases o s).reaches

theorem Opening.length_stack_le (k : Opening o s t) : s.stack.length ≤ t.stack.length := by
  cases k with
  | empty =>
      rw [length_stack_addElement]
      exact Nat.le_refl _
  | tooDeep =>
      rw [length_stack_addElement]
      exact Nat.le_refl _
  | opened => exact Nat.le_succ _

/-- A step closes one element, or it closes none. -/
theorem Step.length_stack (k : Step o source s t) :
    t.stack.length + 1 = s.stack.length ∨ s.stack.length ≤ t.stack.length := by
  cases k with
  | close _ top =>
      left
      rw [closeElement_eq, length_stack_addElement, top]
      simp only [afterEndTag, stack_readEndTag, stack_report, List.length_cons]
  | text =>
      right
      rw [readText, length_stack_add]
      exact Nat.le_refl _
  | interpolation =>
      right
      rw [length_stack_add]
      exact Nat.le_refl _
  | comment =>
      right
      rw [addComment, length_stack_add]
      exact Nat.le_refl _
  | cdata =>
      right
      rw [readSection, length_stack_addAll]
      exact Nat.le_refl _
  | namelessEndTag => exact .inr (Nat.le_refl _)
  | strayEndTag => exact .inr (Nat.le_refl _)
  | startTag => exact .inr (openElement_cases o s).length_stack_le

theorem progresses_step (goes : s.isDone = false) : s.Progresses (s.step o source) := by
  have step : Step o source s (s.step o source) := step_cases goes
  have smaller := size_step_lt o source goes
  rw [size, size] at smaller
  rcases step.length_stack with popped | kept
  · have bytes := step.reaches.unread_le
    rw [Progresses]
    omega
  · exact .inl (step.reaches.unread_lt (by omega))

end State

/-! ## Attribute lists -/

namespace Property

variable {o : Options} {kind : TagKind} {vPre : Bool} {seen seen' : List (List Char)}
  {c d e : Cursor}

/-- One turn of the loop over an attribute list: the names seen so far and the cursor for the next
    turn, or nothing where the list ends. -/
def turn? (o : Options) (vPre : Bool) (seen : List (List Char)) (c : Cursor) :
    Option (List (List Char) × Cursor) :=
  match c.rest with
  | [] => none
  | '>' :: _ => none
  | '/' :: '>' :: _ => none
  | '/' :: _ => some (seen, (c.skip 1).skipBlanks)
  | _ :: _ =>
    let a := read o vPre seen c
    some (a.value.rawName :: seen, a.cursor.skipBlanks)

/-- An exact number of turns from `c`, after which the list ends at `d`. -/
inductive Turns (o : Options) (vPre : Bool) : Nat → List (List Char) → Cursor → Cursor → Prop where
  | done {seen : List (List Char)} {c : Cursor} (ends : turn? o vPre seen c = none) :
      Turns o vPre 0 seen c c
  | turn {n : Nat} {seen seen' : List (List Char)} {c d e : Cursor}
      (goes : turn? o vPre seen c = some (seen', d)) (rest : Turns o vPre n seen' d e) :
      Turns o vPre (n + 1) seen c e

/-- Every turn takes bytes. -/
theorem unread_turn?_lt (h : turn? o vPre seen c = some (seen', d)) : d.unread < c.unread := by
  unfold turn? at h
  split at h
  · cases h
  · cases h
  · cases h
  · next rest =>
    cases h
    have blanks := (c.skip 1).reaches_skipBlanks
    refine ((c.reaches_skip 1).trans blanks).unread_lt ?_
    exact Cursor.length_lt_of_skip_reaches (by simp [rest]) Nat.one_pos blanks
  · next rest =>
    cases h
    have blanks := (read o vPre seen c).cursor.reaches_skipBlanks
    refine ((reaches_read o vPre seen c).trans blanks).unread_lt ?_
    exact Nat.lt_of_le_of_lt blanks.length_le (length_read_lt o vPre seen c (by simp [rest]))

/-- Reading an attribute list is taking turns until it ends. -/
theorem turns_readAll (o : Options) (kind : TagKind) (vPre : Bool) (seen : List (List Char))
    (c : Cursor) :
    ∃ n, n ≤ c.unread ∧ Turns o vPre n seen c (readAll o kind vPre seen c).cursor := by
  fun_induction readAll o kind vPre seen c with
  | case1 seen c rest => exact ⟨0, Nat.zero_le _, .done (by simp [turn?, rest])⟩
  | case2 seen c _ rest => exact ⟨0, Nat.zero_le _, .done (by simp [turn?, rest])⟩
  | case3 seen c _ rest => exact ⟨0, Nat.zero_le _, .done (by simp [turn?, rest])⟩
  | case4 seen c t _ rest r ih =>
      have goes : turn? o vPre seen c = some (seen, (c.skip 1).skipBlanks) := by
        simp [turn?, rest]
      obtain ⟨n, bound, turns⟩ := ih
      have fewer := unread_turn?_lt goes
      exact ⟨n + 1, by omega, .turn goes turns⟩
  | case5 seen c d t _ _ _ rest a r atEndTag ih =>
      have goes : turn? o vPre seen c = some (a.value.rawName :: seen, a.cursor.skipBlanks) := by
        simp [turn?, rest, a]
      obtain ⟨n, bound, turns⟩ := ih
      have fewer := unread_turn?_lt goes
      exact ⟨n + 1, by omega, .turn goes turns⟩

end Property

/-! ## Going back -/

namespace Tag

variable {o : Options} {kind : TagKind} {vPre : Bool} {c : Cursor}

/-- A pass over the attribute list of the tag at `c`. -/
def pass (o : Options) (kind : TagKind) (c : Cursor) (vPre : Bool) : Reading (List Property) :=
  Property.readAll o kind vPre [] (attributesAt kind c)

/-- Passes over the attribute list of the tag at `c`, the first one with directives off or not:
    whenever a pass turns them off, the next one starts again at the same place. `n` is how often
    that happens, and `last` the pass that counts. -/
inductive Passes (o : Options) (kind : TagKind) (c : Cursor) :
    Bool → Nat → Reading (List Property) → Prop where
  | last {vPre : Bool} (stays : startsVPreWith kind vPre (pass o kind c vPre).value = false) :
      Passes o kind c vPre 0 (pass o kind c vPre)
  | rewind {vPre : Bool} {n : Nat} {last : Reading (List Property)}
      (turns : startsVPreWith kind vPre (pass o kind c vPre).value = true)
      (next : Passes o kind c true n last) : Passes o kind c vPre (n + 1) last

theorem not_startsVPreWith_true (kind : TagKind) (props : List Property) :
    startsVPreWith kind true props = false := by
  simp [startsVPreWith]

theorem Passes.count_le {n : Nat} {last : Reading (List Property)}
    (h : Passes o kind c vPre n last) : n ≤ 1 := by
  cases h with
  | last => exact Nat.zero_le 1
  | rewind _ next =>
      cases next with
      | last => exact Nat.le_refl 1
      | rewind turns _ =>
          rw [not_startsVPreWith_true] at turns
          cases turns

/-- A tag is read by such passes, and ends where the last one does. -/
theorem passes_read (o : Options) (kind : TagKind) (vPre : Bool) (c : Cursor) :
    ∃ n last, Passes o kind c vPre n last ∧
      (read o kind vPre c).cursor = (readEnd kind last.cursor).cursor ∧
      (read o kind vPre c).log = last.log ++ (readEnd kind last.cursor).log := by
  cases again : startsVPreWith kind vPre (pass o kind c vPre).value with
  | false =>
      refine ⟨0, _, .last again, ?_⟩
      rw [pass] at again ⊢
      simp [read, again]
  | true =>
      refine ⟨1, _, .rewind again (.last (not_startsVPreWith_true _ _)), ?_⟩
      rw [pass] at again
      simp [read, pass, again]

end Tag

/-- Reading a template ends, whatever the options are. Every step takes bytes or closes an element,
    so after at most as many steps as the template has characters nothing is left to do. Inside a
    step, every turn of the loop over an attribute list takes bytes, so that this loop ends too, and
    a tag goes back to the start of its list at most once. -/
theorem parse_terminates (o : Options) (source : List Char) :
    (∀ s : State, s.isDone = false → s.Progresses (s.step o source)) ∧
      (∃ n s, n ≤ source.length ∧ State.Steps o source n (.initial source) s ∧ s.isDone = true ∧
        parse o source = s.result o source) ∧
      (∀ vPre seen c seen' d, Property.turn? o vPre seen c = some (seen', d) →
        d.unread < c.unread) ∧
      (∀ kind vPre seen c, ∃ n, n ≤ c.unread ∧
        Property.Turns o vPre n seen c (Property.readAll o kind vPre seen c).cursor) ∧
      (∀ kind vPre c, ∃ n last, Tag.Passes o kind c vPre n last ∧
        (Tag.read o kind vPre c).cursor = (Tag.readEnd kind last.cursor).cursor ∧
        (Tag.read o kind vPre c).log = last.log ++ (Tag.readEnd kind last.cursor).log) ∧
      ∀ kind vPre c n last, Tag.Passes o kind c vPre n last → n ≤ 1 := by
  refine ⟨fun _ => State.progresses_step, ?_, fun _ _ _ _ _ => Property.unread_turn?_lt,
    Property.turns_readAll o, Tag.passes_read o, fun _ _ _ _ _ => Tag.Passes.count_le⟩
  obtain ⟨done, n, bound, steps⟩ := State.steps_run o source (.initial source)
  exact ⟨n, _, bound, steps, done, rfl⟩

end Stencil
