import Stencil.Proofs.Bytewise.Value
import Stencil.Proofs.DirectiveName

/-! # Directives by bytes

Scans the parts of a directive name. Where a part starts is the number of bytes before it in the
name, and its location is found from there.
-/

namespace Stencil

namespace Scanner

section

variable (source : List Char) (o : Options)

/-- The location of the bytes from `lo` to `hi` after a position. -/
def locationOf (start : Position) (lo hi : Nat) : Scanner Location := do
  between source (← positionAt source start lo) (← positionAt source start hi)

/-- The argument of the directive `name`, which starts at a position. The parts of the name follow
    each other, `raw` being that of the argument. -/
def directiveArg (start : Position) (name : List Char) (n : DirectiveName) (raw : List Char) :
    Scanner Expression := do
  let isSlot := n.name == "slot".toList
  let first := Text.byteLength n.head
  let stop := if isSlot && !n.remainder.isEmpty then Text.byteLength name
    else first + Text.byteLength raw
  let loc ← locationOf source start first stop
  reportIf source (Directive.isUnclosed raw = true) .missingDynamicDirectiveArgumentEnd 0
  match raw with
  | '[' :: _ => return ⟨(Directive.argContent isSlot [] raw).1, false, loc⟩
  | _ =>
    if isSlot then return ⟨← Checked.ofFault (Text.cut name first stop), true, loc⟩
    else return ⟨raw, true, loc⟩

/-- The modifiers of a directive, the first of which stands `offset` bytes after a position. -/
def placeModifiers (start : Position) (offset : Nat) : List (List Char) → Scanner (List Expression)
  | [] => return []
  | m :: ms => do
    let loc ← locationOf source start offset (offset + Text.byteLength m)
    let others ← placeModifiers start (offset + Text.byteLength m + 1) ms
    return ⟨m, true, loc⟩ :: others

/-- The modifiers that the remainder of a name spells out. -/
def spelledModifiers (start : Position) (n : DirectiveName) : Scanner (List Expression) :=
  if n.remainder.isEmpty then return []
  else do
    let lead := n.remainder.head?.elim 0 Char.utf8Size
    let text ← Checked.ofFault (Text.cutFrom n.remainder lead)
    let first := Text.byteLength n.head + n.rawArg.elim 0 Text.byteLength
    placeModifiers source start (first + lead) (Text.pieces (· == '.') text)

/-- The modifier that the shorthand dot stands for. -/
def dotModifier (start : Position) (name : List Char) : Scanner (List Expression) :=
  if name.head? == some '.' then
    return [⟨"prop".toList, true, ← between source start (← positionAt source start 1)⟩]
  else return []

/-- Adds warnings to what there is to report. -/
def warn (warnings : List Legacy.Warning) : Scanner Unit :=
  modify fun s => { s with log := s.log ++ .ofWarnings warnings }

/-- Scans the directive `name` that starts at a position and ends at `loc`. -/
def directive (start : Position) (name : List Char) (value : Option AttributeValue)
    (loc : Location) : Scanner Directive := do
  let n := DirectiveName.split name
  let arg ← n.rawArg.mapM (directiveArg source start name n)
  let spelled ← spelledModifiers source start n
  let dot ← dotModifier source start name
  let (d, warnings) := Directive.modernize o.legacy
    { name := n.name
      rawName := name
      exp := value.map fun v => { content := v.content, isStatic := false, loc := v.inner }
      arg := arg
      modifiers := spelled ++ dot
      loc := loc }
  warn warnings
  return d

end

variable {source : List Char} {o : Options} {c after : Cursor}

theorem locationOf_run (h : c.Within source) {i j : Nat} (le : i ≤ j) (s : Scan) :
    (locationOf source c.position (Text.byteLength (c.rest.take i))
      (Text.byteLength (c.rest.take j))).run s = pure ((c.skip i).locationTo (c.skip j), s) := by
  simp only [locationOf, StateT.run_bind, positionAt_run h, pure_bind, Cursor.ahead,
    between_run (h.skip i) (c.skip_reaches_skip le)]

/-! ## Modifiers -/

end Scanner

/-- The first piece of a text is all of it, or a separator follows. -/
theorem Text.pieces_eq_cons {p : Char → Bool} {s m : List Char} {ms : List (List Char)}
    (h : pieces p s = m :: ms) :
    ms = [] ∧ s = m ∨ ∃ d t, s = m ++ d :: t ∧ p d = true ∧ pieces p t = ms := by
  induction s generalizing m with
  | nil =>
      cases h
      exact .inl ⟨rfl, rfl⟩
  | cons c s ih =>
      rw [pieces] at h
      split at h
      · next separator =>
        cases h
        exact .inr ⟨c, s, rfl, separator, rfl⟩
      · cases rest : pieces p s with
        | nil =>
            have some := length_pieces p s
            simp [rest] at some
        | cons w ws =>
            rw [rest] at h
            cases h
            rcases ih rest with ⟨rfl, rfl⟩ | ⟨d, t, rfl, separator, later⟩
            · exact .inl ⟨rfl, rfl⟩
            · exact .inr ⟨d, t, rfl, separator, later⟩

namespace Scanner

variable {source : List Char} {o : Options} {c after : Cursor}

theorem placeModifiers_run (h : c.Within source) {s : List Char} {ms : List (List Char)}
    (pieces : Text.pieces (· == '.') s = ms) {i : Nat} (text : s <+: c.rest.drop i) (scan : Scan) :
    (placeModifiers source c.position (Text.byteLength (c.rest.take i)) ms).run scan =
      pure (Directive.placeModifiers c i ms, scan) := by
  induction ms generalizing s i with
  | nil => rfl
  | cons m ms ih =>
      rcases Text.pieces_eq_cons pieces with ⟨rfl, rfl⟩ | ⟨d, t, rfl, dot, later⟩
      · have stop := Text.byteLength_take_add_length text
        simp only [placeModifiers, Directive.placeModifiers, StateT.run_bind, ← stop,
          locationOf_run h (Nat.le_add_right _ _), pure_bind, StateT.run_pure]
      · have same : d = '.' := beq_iff_eq.mp dot
        subst same
        have stop := Text.byteLength_take_add_length ((List.prefix_append m _).trans text)
        have next : ['.'] ++ t <+: c.rest.drop (i + m.length) := by
          obtain ⟨u, rest⟩ := text
          rw [← List.drop_drop, ← rest, List.append_assoc, List.drop_left]
          exact ⟨u, rfl⟩
        have step := Text.byteLength_take_add ((List.prefix_append ['.'] t).trans next) (by decide)
          (Nat.le_refl 1)
        have others : t <+: c.rest.drop (i + m.length + 1) := by
          obtain ⟨u, rest⟩ := next
          rw [← List.drop_drop, ← rest]
          exact ⟨u, rfl⟩
        change Text.byteLength (c.rest.take (i + m.length + 1)) = _ + 1 at step
        simp only [placeModifiers, Directive.placeModifiers, StateT.run_bind, ← stop, ← step,
          locationOf_run h (Nat.le_add_right _ _), pure_bind, ih later others, StateT.run_pure]

theorem prefix_drop_of_append {x y s : List Char} (h : x ++ y <+: s) : y <+: s.drop x.length := by
  obtain ⟨t, whole⟩ := h
  rw [← whole, List.append_assoc, List.drop_left]
  exact ⟨t, rfl⟩

/-- The parts of a directive name at a cursor, each at its place. -/
structure Parts (c : Cursor) (name : List Char) (n : DirectiveName) : Prop where
  named : name <+: c.rest
  head : n.head <+: c.rest
  arg : n.rawArg.getD [] <+: c.rest.drop n.head.length
  remainder : n.remainder <+: c.rest.drop (n.head.length + (n.rawArg.getD []).length)
  length : n.head.length + (n.rawArg.getD []).length + n.remainder.length = name.length

theorem parts_split {name : List Char} (named : name <+: c.rest) :
    Parts c name (DirectiveName.split name) := by
  have whole := DirectiveName.split_append name
  generalize DirectiveName.split name = n at whole ⊢
  have start : n.head ++ (n.rawArg.getD [] ++ n.remainder) <+: c.rest := whole ▸ named
  have arg := prefix_drop_of_append start
  have remainder := prefix_drop_of_append arg
  rw [List.drop_drop] at remainder
  refine ⟨named, (List.prefix_append _ _).trans start, (List.prefix_append _ _).trans arg,
    remainder, ?_⟩
  rw [← whole, List.length_append, List.length_append, Nat.add_assoc]

theorem Parts.byteLength_head {name : List Char} {n : DirectiveName} (parts : Parts c name n) :
    Text.byteLength n.head = Text.byteLength (c.rest.take n.head.length) :=
  (Text.byteLength_take_of_prefix parts.head).symm

/-- The number of bytes before the remainder. -/
theorem Parts.byteLength_arg {name : List Char} {n : DirectiveName} (parts : Parts c name n) :
    Text.byteLength n.head + Text.byteLength (n.rawArg.getD []) =
      Text.byteLength (c.rest.take (n.head.length + (n.rawArg.getD []).length)) := by
  rw [Text.byteLength_take_add_length parts.arg, parts.byteLength_head]

theorem spelledModifiers_run (h : c.Within source) {name : List Char} {n : DirectiveName}
    (parts : Parts c name n) (scan : Scan) :
    (spelledModifiers source c.position n).run scan =
      pure (Directive.spelledModifiers c n, scan) := by
  unfold spelledModifiers Directive.spelledModifiers
  cases remainder : n.remainder with
  | nil => rfl
  | cons x t =>
      have bytes : n.rawArg.elim 0 Text.byteLength = Text.byteLength (n.rawArg.getD []) := by
        cases n.rawArg <;> rfl
      have chars : n.rawArg.elim 0 List.length = (n.rawArg.getD []).length := by
        cases n.rawArg <;> rfl
      have starts := parts.remainder
      rw [remainder] at starts
      have lead : Text.byteLength n.head + Text.byteLength (n.rawArg.getD []) + x.utf8Size =
          Text.byteLength (c.rest.take (n.head.length + (n.rawArg.getD []).length + 1)) := by
        have first := Text.byteLength_take_add_length ((List.prefix_append [x] t).trans starts)
        rw [parts.byteLength_arg]
        exact first.symm
      have cut := Text.cutFrom_take (x :: t) 1
      change Text.cutFrom (x :: t) x.utf8Size = .ok t at cut
      have text : t <+: c.rest.drop (n.head.length + (n.rawArg.getD []).length + 1) := by
        have later := prefix_drop_of_append (x := [x]) starts
        rw [List.drop_drop] at later
        exact later
      simp only [List.isEmpty_cons, Bool.false_eq_true, if_false, StateT.run_bind, List.head?_cons,
        Option.elim_some, cut, Checked.ofFault, StateT.run_monadLift, monadLift_self, pure_bind,
        bytes, lead, placeModifiers_run h rfl text, chars]
      rfl

theorem dotModifier_run (h : c.Within source) {name : List Char} (named : name <+: c.rest)
    (scan : Scan) :
    (dotModifier source c.position name).run scan =
      pure (if name.head? == some '.' then
        [{ content := "prop".toList, isStatic := true, loc := c.locationTo (c.skip 1) }]
        else [], scan) := by
  unfold dotModifier
  split
  · next dot =>
    have starts : ['.'] <+: c.rest := by
      cases name with
      | nil => cases dot
      | cons x t =>
          have same : x = '.' := by simpa using dot
          rw [same] at named
          exact (List.prefix_append ['.'] t).trans named
    have one := Text.byteLength_take_of_prefix starts
    have place := positionAt_run h 1 scan
    rw [show Text.byteLength (c.rest.take 1) = 1 from one] at place
    simp [place, Cursor.ahead, between_run h (c.reaches_skip 1)]
  · rfl

/-! ## Arguments -/

/-- Where the argument of a directive ends in the name, in characters. -/
def argStop (name : List Char) (n : DirectiveName) (raw : List Char) : Nat :=
  if n.name == "slot".toList then name.length else n.head.length + raw.length

theorem directiveArg_run (h : c.Within source) (k : c.Reaches after) {name raw : List Char}
    {n : DirectiveName} (parts : Parts c name n) (some : n.rawArg = some raw) (log : Log) :
    (directiveArg source c.position name n raw).run ⟨after.position, log⟩ =
      pure ({ content := (Directive.argContent (n.name == "slot".toList) (name.drop n.head.length)
                raw).1
              isStatic := (Directive.argContent (n.name == "slot".toList)
                (name.drop n.head.length) raw).2
              loc := (c.skip n.head.length).locationTo (c.skip (argStop name n raw)) },
        ⟨after.position, log ++ .ofErrors (if Directive.isUnclosed raw then
          [.at .missingDynamicDirectiveArgumentEnd after.position] else [])⟩) := by
  have arg : n.rawArg.getD [] = raw := by rw [some]; rfl
  have head := parts.byteLength_head
  have length := parts.length
  have whole := (Text.byteLength_take_of_prefix parts.named).symm
  have end' := parts.byteLength_arg
  rw [arg] at length end'
  have stop : (if (n.name == "slot".toList) && !n.remainder.isEmpty then Text.byteLength name
      else Text.byteLength n.head + Text.byteLength raw) =
      Text.byteLength (c.rest.take (argStop name n raw)) := by
    unfold argStop
    cases n.name == "slot".toList with
    | false => exact end'
    | true =>
        cases remainder : n.remainder with
        | nil =>
            rw [remainder, List.length_nil, Nat.add_zero] at length
            rw [if_pos rfl, ← length]
            exact end'
        | cons x t => exact whole
  have ordered : n.head.length ≤ argStop name n raw := by
    unfold argStop
    split <;> omega
  simp only [directiveArg, StateT.run_bind, stop]
  rw [head]
  simp only [locationOf_run h ordered, pure_bind, reportIf_zero_run (h.of_reaches k)]
  split
  · rfl
  · next other =>
    have content : Directive.argContent (n.name == "slot".toList) (name.drop n.head.length) raw =
        (if n.name == "slot".toList then name.drop n.head.length else raw, true) := by
      unfold Directive.argContent
      split
      · next inner => exact absurd rfl (other inner)
      · rfl
    rw [content]
    cases slot : n.name == "slot".toList with
    | false => rfl
    | true =>
        have cut : Text.cut name (Text.byteLength (c.rest.take n.head.length))
            (Text.byteLength (c.rest.take (argStop name n raw))) =
            .ok (name.drop n.head.length) := by
          have bound : n.head.length ≤ name.length := by omega
          have start : c.rest.take n.head.length = name.take n.head.length := by
            obtain ⟨t, rest⟩ := parts.named
            rw [← rest, List.take_append_of_le_length bound]
          have cut := Text.cut_take name bound
          rw [argStop, slot, if_pos rfl, start, ← whole]
          rw [List.take_length] at cut
          exact cut
        simp [cut, Checked.ofFault]

theorem warn_run (p : Position) (warnings : List Legacy.Warning) (log : Log) :
    (warn warnings).run ⟨p, log⟩ = pure ((), ⟨p, log ++ .ofWarnings warnings⟩) := rfl

theorem directive_run (h : c.Within source) (k : c.Reaches after) (o : Options) {name : List Char}
    (named : name <+: c.rest) (value : Option AttributeValue) (log : Log) :
    (directive source o c.position name value (c.locationTo after)).run ⟨after.position, log⟩ =
      pure ((Directive.build o c after name value).1,
        ⟨after.position, log ++ (Directive.build o c after name value).2⟩) := by
  have parts := parts_split named
  unfold Directive.build directive
  generalize DirectiveName.split name = n at parts ⊢
  have arg : (n.rawArg.mapM (directiveArg source c.position name n)).run ⟨after.position, log⟩ =
      pure (Directive.argOf c name n, ⟨after.position, log ++ .ofErrors
        (if n.rawArg.any Directive.isUnclosed then
          [.at .missingDynamicDirectiveArgumentEnd after.position] else [])⟩) := by
    cases raw : n.rawArg with
    | none => simp [Directive.argOf, raw, Log.ofErrors_nil]
    | some raw' =>
        have run := directiveArg_run h k parts raw log
        simp only [Option.mapM_some, StateT.run_map, run, map_pure, Directive.argOf, raw]
        rfl
  simp only [StateT.run_bind, arg, pure_bind, spelledModifiers_run h parts, dotModifier_run h named,
    warn_run, StateT.run_pure, Log.append_assoc, Log.ofErrors_append_ofWarnings]
  rfl

end Scanner

end Stencil
