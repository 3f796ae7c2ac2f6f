import Stencil.Proofs.Stack
import Stencil.Proofs.Termination

/-! # The history of a reading

The elements that a reading opens and closes, in order. An event is what can be seen of two
successive states: their stacks differ in length, and text is read in between. In a whole history
each element that is opened is closed once, and whether it is reported depends only on whether
something was read when it was closed.
-/

namespace Stencil

/-- A change of the open elements. -/
inductive Event where
  | opened (e : OpenElement)
  /-- An element is closed while a text is read. -/
  | closed (e : OpenElement) (text : List Char)

namespace Event

/-- What happens to the open elements between two successive states. -/
def between (s t : State) : Option Event :=
  if s.stack.length < t.stack.length then t.stack.head?.map .opened
  else if t.stack.length < s.stack.length then
    s.stack.head?.map fun e => .closed e (s.cursor.textTo t.cursor)
  else none

/-- The elements that are opened. -/
def openings : List Event → List OpenElement
  | [] => []
  | .opened e :: events => e :: openings events
  | .closed _ _ :: events => openings events

/-- The elements that are closed, each with the text that is read on that occasion. -/
def closings : List Event → List (OpenElement × List Char)
  | [] => []
  | .opened _ :: events => closings events
  | .closed e text :: events => (e, text) :: closings events

theorem openings_append (past future : List Event) :
    openings (past ++ future) = openings past ++ openings future := by
  fun_induction openings past with
  | case1 => rfl
  | case2 e events ih => exact congrArg (e :: ·) ih
  | case3 e text events ih => exact ih

end Event

namespace State

open Event

variable {o : Options} {source : List Char} {s t : State}

/-- What happens to the open elements from a state on. -/
def history (o : Options) (source : List Char) (s : State) : List Event :=
  if _h : s.isDone = true then []
  else (between s (s.step o source)).toList ++ history o source (s.step o source)
termination_by s.size
decreasing_by exact size_step_lt o source (by simpa using _h)

/-- What one step adds to the history and what it does to the state. -/
inductive Recorded (o : Options) (source : List Char) (s t : State) : Option Event → Prop where
  | opened {e : OpenElement} (own : e.bare = e) (start : e.start = s.cursor)
      (loc : e.element.loc.start = e.start.position) (stack : t.stack = e :: s.stack)
      (errors : NoneMissing s t) : Recorded o source s t (some (.opened e))
  | matched {e : OpenElement} {text : List Char} (stack : s.stack.map OpenElement.bare =
      e.bare :: t.stack.map OpenElement.bare) (tag : Tag.IsEndTagOf e.element.tag text)
      (errors : NoneMissing s t) : Recorded o source s t (some (.closed e text))
  | unmatched {e : OpenElement} (stack : s.stack.map OpenElement.bare =
      e.bare :: t.stack.map OpenElement.bare)
      (errors : NoneMissing { s with errors := e.missing :: s.errors } t) :
      Recorded o source s t (some (.closed e []))
  | kept (stack : t.stack.map OpenElement.bare = s.stack.map OpenElement.bare)
      (errors : NoneMissing s t) : Recorded o source s t none

theorem length_receive (nodes : List Node) (stack : List OpenElement) :
    (receive nodes stack).length = stack.length := by
  cases stack <;> rfl

theorem StackStep.recorded (k : StackStep o source s t) (h : Disciplined s) :
    Recorded o source s t (between s t) := by
  cases k with
  | @closed e stack _ top result =>
      subst result
      have below := stack_closeElement o source s e stack
      have event : between s (s.closeElement o source e stack) =
          some (.closed e (s.cursor.textTo (s.closeElement o source e stack).cursor)) := by
        simp [between, below, length_receive, top]
      have bares : s.stack.map OpenElement.bare =
          e.bare :: (s.closeElement o source e stack).stack.map OpenElement.bare := by
        rw [below, map_bare_receive, top, List.map_cons]
      have named := Tag.startsEndTag_iff (s := s.cursor.rest)
        (h.names e (by rw [top]; exact List.mem_cons_self))
      rw [event]
      cases own : Tag.startsEndTag e.element.tag s.cursor.rest with
      | true =>
          obtain ⟨cursor, errors⟩ := closeElement_matched o source e stack own
          refine .matched bares ?_ ⟨_, errors, fun x hx => ?_⟩
          · rw [cursor]
            exact Tag.isEndTagOf_textTo o _ (named.mp own)
          · exact (Tag.read_local o .closing s.flags.vPre s.cursor).ne rfl x
              (List.mem_reverse.mp hx)
      | false =>
          obtain ⟨cursor, more, codes, _, errors⟩ := closeElement_unmatched o source e stack own
          rw [cursor, Cursor.textTo_self]
          refine .unmatched bares ⟨more, errors, fun x hx same => ?_⟩
          rw [codes x hx] at same
          cases same
  | opened data markup result =>
      subst result
      have event : between s { s.afterStartTag o with
          stack := s.opened o :: s.stack
          flags := s.flagsInside o } = some (.opened (s.opened o)) := by
        simp [between]
      rw [event]
      exact .opened rfl rfl rfl rfl (noneMissing_afterStartTag o s)
  | kept nodes stack errors =>
      have event : between s t = none := by
        simp [between, stack, length_receive]
      rw [event]
      exact .kept (by rw [stack, map_bare_receive]) errors

theorem Reachable.recorded (h : Reachable o source s) (goes : s.isDone = false) :
    Recorded o source s (s.step o source) (between s (s.step o source)) :=
  (step_cases goes).stackStep.recorded h.disciplined

/-! ## Whole histories -/

theorem history_of_isDone (done : s.isDone = true) : history o source s = [] := by
  rw [history, dif_pos done]

theorem history_of_not_isDone (goes : s.isDone = false) :
    history o source s =
      (between s (s.step o source)).toList ++ history o source (s.step o source) := by
  rw [history, dif_neg (by rw [goes]; exact Bool.false_ne_true)]

theorem run_of_not_isDone (goes : s.isDone = false) :
    s.run o source = (s.step o source).run o source := by
  rw [run, dif_neg (by rw [goes]; exact Bool.false_ne_true)]

/-- A property of the states from which a reading goes on holds of each reachable one if it holds
    at the end and carries over from a step to the state before it. -/
@[elab_as_elim]
theorem Reachable.backward {motive : (s : State) → Reachable o source s → Prop}
    (last : ∀ s h, s.isDone = true → motive s h)
    (step : ∀ s h (goes : s.isDone = false), motive (s.step o source) (h.step goes) → motive s h)
    (h : Reachable o source s) : motive s h := by
  fun_induction run o source s with
  | case1 s done => exact last s h done
  | case2 s goes ih =>
      have goes : s.isDone = false := by simpa using goes
      exact step s h goes (ih (h.step goes))

theorem Recorded.closings_perm {event : Option Event} {events : List Event}
    (k : Recorded o source s t event)
    (h : ((closings events).map fun p => p.1.bare).Perm
      (t.stack.map OpenElement.bare ++ openings events)) :
    ((closings (event.toList ++ events)).map fun p => p.1.bare).Perm
      (s.stack.map OpenElement.bare ++ openings (event.toList ++ events)) := by
  cases k with
  | @opened e own _ _ stack =>
      rw [stack, List.map_cons, own] at h
      exact h.trans List.perm_middle.symm
  | matched stack | unmatched stack =>
      rw [stack]
      exact h.cons _
  | kept stack =>
      rw [stack] at h
      exact h

/-- What is closed from a state on is what is open there and what is opened from there on. -/
theorem Reachable.closings_perm (h : Reachable o source s) :
    ((closings (history o source s)).map fun p => p.1.bare).Perm
      (s.stack.map OpenElement.bare ++ openings (history o source s)) := by
  induction h using Reachable.backward with
  | last s h done =>
      rw [history_of_isDone done, (rest_of_isDone done).1]
      exact .nil
  | step s h goes ih =>
      rw [history_of_not_isDone goes]
      exact (h.recorded goes).closings_perm ih

/-- Elements are opened in the order of the template, from the cursor on, and each starts where it
    says. -/
structure Ordered (s : State) (es : List OpenElement) : Prop where
  starts : ∀ e ∈ es, e.element.loc.start = e.start.position
  ahead : ∀ e ∈ es, s.cursor.position.offset ≤ e.start.position.offset
  increasing : es.Pairwise fun d e => d.start.position.offset < e.start.position.offset

theorem Recorded.ordered {event : Option Event} {events : List Event}
    (k : Recorded o source s t event) (reaches : s.cursor.Reaches t.cursor)
    (progress : s.Progresses t) (h : Ordered t (openings events)) :
    Ordered s (openings (event.toList ++ events)) := by
  have ahead : ∀ e ∈ openings events, s.cursor.position.offset ≤ e.start.position.offset :=
    fun e he => Nat.le_trans reaches.offset_le (h.ahead e he)
  cases k with
  | @opened e own start loc stack =>
      have strict : s.cursor.position.offset < t.cursor.position.offset := by
        rw [Progresses, stack, List.length_cons, reaches.unread_eq] at progress
        have place := reaches.offset_eq
        omega
      refine ⟨?_, ?_, .cons (fun d hd => ?_) h.increasing⟩
      · exact List.forall_mem_cons.mpr ⟨loc, h.starts⟩
      · exact List.forall_mem_cons.mpr ⟨Nat.le_of_eq (by rw [start]), ahead⟩
      · rw [start]
        exact Nat.lt_of_lt_of_le strict (h.ahead d hd)
  | matched | unmatched | kept => exact ⟨h.starts, ahead, h.increasing⟩

theorem Reachable.ordered (h : Reachable o source s) :
    Ordered s (openings (history o source s)) := by
  induction h using Reachable.backward with
  | last s h done =>
      rw [history_of_isDone done]
      exact ⟨fun _ he => (nomatch he), fun _ he => (nomatch he), .nil⟩
  | step s h goes ih =>
      rw [history_of_not_isDone goes]
      exact (h.recorded goes).ordered (step_cases goes).reaches (progresses_step goes) ih

/-- An element is closed by an end tag of its name, or without anything being read. -/
theorem Recorded.closed_text {event : Option Event} {e : OpenElement} {text : List Char}
    (k : Recorded o source s t event) (closed : event = some (.closed e text)) :
    text = [] ∨ Tag.IsEndTagOf e.element.tag text := by
  cases k with
  | matched _ tag =>
      cases closed
      exact .inr tag
  | unmatched =>
      cases closed
      exact .inl rfl
  | opened | kept => cases closed

theorem mem_closings {events : List Event} {p : OpenElement × List Char}
    (h : p ∈ closings events) : .closed p.1 p.2 ∈ events := by
  fun_induction closings events with
  | case1 => cases h
  | case2 e events ih => exact List.mem_cons_of_mem _ (ih h)
  | case3 e text events ih =>
      rcases List.mem_cons.mp h with rfl | h
      · exact List.mem_cons_self
      · exact List.mem_cons_of_mem _ (ih h)

theorem Reachable.closings_text (h : Reachable o source s) :
    ∀ p ∈ closings (history o source s), p.2 = [] ∨ Tag.IsEndTagOf p.1.element.tag p.2 := by
  suffices texts : ∀ e text, .closed e text ∈ history o source s →
      text = [] ∨ Tag.IsEndTagOf e.element.tag text from fun p hp => texts p.1 p.2 (mem_closings hp)
  induction h using Reachable.backward with
  | last s h done =>
      rw [history_of_isDone done]
      intro e text member
      cases member
  | step s h goes ih =>
      rw [history_of_not_isDone goes]
      intro e text member
      rcases List.mem_append.mp member with now | later
      · exact (h.recorded goes).closed_text (Option.mem_toList.mp now)
      · exact ih e text later

/-- A report that an end tag is missing is made once for each element that it fits and that is
    closed without anything being read. -/
theorem Recorded.count_missing {event : Option Event} {events : List Event} {x : ParseError}
    {final : List ParseError} (k : Recorded o source s t event) (code : x.code = .missingEndTag)
    (h : final.count x =
      (closings events).countP (fun p => p.1.missing = x && p.2 = []) + t.errors.count x) :
    final.count x = (closings (event.toList ++ events)).countP
      (fun p => p.1.missing = x && p.2 = []) + s.errors.count x := by
  have quiet : ∀ {s t : State}, NoneMissing s t → t.errors.count x = s.errors.count x := by
    intro s t ⟨es, errors, others⟩
    rw [errors, List.count_append, List.count_eq_zero.mpr (fun hx => others x hx code),
      Nat.zero_add]
  cases k with
  | opened _ _ _ _ errors | kept _ errors =>
      rw [quiet errors] at h
      exact h
  | @matched e text _ tag errors =>
      rw [quiet errors] at h
      have some : text ≠ [] := by
        obtain ⟨rest, whole⟩ := tag.1
        rw [← whole]
        exact List.cons_ne_nil _ _
      simpa [closings, some] using h
  | @unmatched e _ errors =>
      rw [quiet errors, List.count_cons] at h
      simp only [Option.toList, List.cons_append, List.nil_append, closings, List.countP_cons] at *
      rw [h]
      simp
      omega

theorem Reachable.count_missing (h : Reachable o source s) {x : ParseError}
    (code : x.code = .missingEndTag) :
    (s.run o source).errors.count x = (closings (history o source s)).countP
      (fun p => p.1.missing = x && p.2 = []) + s.errors.count x := by
  induction h using Reachable.backward with
  | last s h done =>
      rw [history_of_isDone done, run, dif_pos done]
      exact (Nat.zero_add _).symm
  | step s h goes ih =>
      rw [history_of_not_isDone goes, run_of_not_isDone goes]
      exact (h.recorded goes).count_missing code ih

/-! ## What becomes of an element -/

/-- Where keys are not repeated, only one entry has the key of `p`. -/
theorem countP_key {α β : Type} [DecidableEq β] {key : α → β} {g : α → Bool} {l : List α} {p : α}
    (distinct : (l.map key).Nodup) (member : p ∈ l) :
    l.countP (fun q => key q = key p && g q) = if g p then 1 else 0 := by
  induction l with
  | nil => cases member
  | cons q l ih =>
      rw [List.map_cons, List.nodup_cons] at distinct
      rw [List.countP_cons]
      by_cases same : key q = key p
      · have only : q = p := by
          rcases List.mem_cons.mp member with rfl | later
          · rfl
          · exact absurd (same ▸ List.mem_map_of_mem later) distinct.1
        have others : l.countP (fun r => key r = key p && g r) = 0 := by
          refine List.countP_eq_zero.mpr fun r hr => ?_
          have other : key r ≠ key p := fun again =>
            distinct.1 (same ▸ again ▸ List.mem_map_of_mem hr)
          simp [other]
        simp [others, only]
      · have later : p ∈ l := by
          rcases List.mem_cons.mp member with rfl | later
          · exact absurd rfl same
          · exact later
        simp [ih distinct.2 later, same]

/-- What becomes of an element `e` that is opened: it is closed once, and then either by an end tag
    of its name, or without anything being read and with one report at its start. -/
structure Settled (o : Options) (source : List Char) (e : OpenElement) : Prop where
  once : (closings (history o source (initial source))).countP
    (fun p => p.1.start.position = e.start.position) = 1
  outcome : ∃ p ∈ closings (history o source (initial source)), p.1.bare = e ∧
    (Tag.IsEndTagOf e.element.tag p.2 ∧ (parse o source).errors.count e.missing = 0 ∨
      p.2 = [] ∧ (parse o source).errors.count e.missing = 1)

theorem missing_eq_iff {d e : OpenElement} (hd : d.element.loc.start = d.start.position)
    (he : e.element.loc.start = e.start.position) :
    d.missing = e.missing ↔ d.start.position = e.start.position := by
  rw [← hd, ← he]
  constructor
  · exact ParseError.at_inj
  · intro same
    rw [OpenElement.missing, same, OpenElement.missing]

theorem Ordered.nodup {es : List OpenElement} (h : Ordered s es) :
    (es.map fun e => e.start.position).Nodup := by
  refine List.pairwise_map.mpr (h.increasing.imp fun less same => ?_)
  rw [same] at less
  exact Nat.lt_irrefl _ less

/-- What is open after a step was open before, or the step opens it. -/
theorem Recorded.stack_subset {event : Option Event} (k : Recorded o source s t event) :
    t.stack.map OpenElement.bare ⊆ openings event.toList ++ s.stack.map OpenElement.bare := by
  cases k with
  | @opened e own _ _ stack =>
      rw [stack, List.map_cons, own]
      exact List.Subset.refl _
  | matched stack | unmatched stack =>
      rw [stack]
      exact List.subset_cons_self _ _
  | kept stack =>
      rw [stack]
      exact List.Subset.refl _

/-- A state has a past in which its open elements were opened. -/
theorem Reachable.exists_past (h : Reachable o source s) :
    ∃ past, history o source (State.initial source) = past ++ history o source s ∧
      s.stack.map OpenElement.bare ⊆ openings past := by
  induction h with
  | initial => exact ⟨[], rfl, List.Subset.refl _⟩
  | @step s reached goes ih =>
      obtain ⟨past, whole, known⟩ := ih
      refine ⟨past ++ (between s (s.step o source)).toList, ?_, ?_⟩
      · rw [whole, history_of_not_isDone goes, List.append_assoc]
      · rw [openings_append]
        intro e he
        rcases List.mem_append.mp ((reached.recorded goes).stack_subset he) with now | before
        · exact List.mem_append_right _ now
        · exact List.mem_append_left _ (known before)

/-- Every element that a reading opens is settled by its end. -/
theorem settled_of_opened (o : Options) (source : List Char) :
    ∀ e ∈ openings (history o source (initial source)), Settled o source e := by
  intro e he
  have reached : Reachable o source (initial source) := .initial
  have perm := reached.closings_perm
  have ordered := reached.ordered
  have start : ∀ p ∈ closings (history o source (initial source)),
      p.1.element.loc.start = p.1.start.position := fun p hp =>
    ordered.starts p.1.bare (perm.mem_iff.mp (List.mem_map_of_mem hp))
  have distinct : ((closings (history o source (initial source))).map
      fun p => p.1.start.position).Nodup := by
    have bares := (perm.map fun e => e.start.position).nodup_iff.mpr ordered.nodup
    rw [List.map_map] at bares
    exact bares
  obtain ⟨p, hp, rfl⟩ := List.mem_map.mp (perm.mem_iff.mpr he)
  have reports : (parse o source).errors.count p.1.missing = if p.2 = [] then 1 else 0 := by
    have run := reached.count_missing (x := p.1.missing) rfl
    rw [List.countP_congr (q := fun q => q.1.start.position = p.1.start.position && q.2 = []),
      countP_key distinct hp] at run
    · rw [parse, result, List.count_reverse, run]
      simp [initial]
    · intro q hq
      simp only [missing_eq_iff (start q hq) (start p hp)]
  refine ⟨?_, p, hp, rfl, ?_⟩
  · have once := countP_key (g := fun _ => true) distinct hp
    simp only [Bool.and_true] at once
    exact once
  · rw [OpenElement.missing_bare, reports]
    rcases reached.closings_text p hp with nothing | tag
    · exact .inr ⟨nothing, if_pos nothing⟩
    · obtain ⟨rest, whole⟩ := tag.1
      refine .inl ⟨tag, if_neg ?_⟩
      rw [← whole]
      exact List.cons_ne_nil _ _

/-- Every element that is open in some state is settled by the end. -/
theorem Reachable.settled (h : Reachable o source s) :
    ∀ e ∈ s.stack, Settled o source e.bare := by
  intro e he
  obtain ⟨past, whole, known⟩ := h.exists_past
  refine settled_of_opened o source e.bare ?_
  rw [whole, openings_append]
  exact List.mem_append_left _ (known (List.mem_map_of_mem he))

end State

end Stencil
