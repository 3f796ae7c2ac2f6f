import Mathlib.Data.List.Basic
import Mathlib.Data.List.Induction
import Stencil.Command.Run

/-! # Inputs are independent

The loop over the inputs shares one state: what has been written, the JSON forms, the flag and the
count that decide how the command ends, and the standard input, which can be read only once. None of
it lets one input show in what is written about another one. What is written about an input depends
on what reading it gives and on whether there are others, and no input is read twice.
-/

namespace Stencil

/-! ## Collecting inputs -/

namespace Input

/-- No input before the one at place `k` is the same. -/
def isFirst (inputs : List Input) (k : Nat) : Bool :=
  inputs[k]?.all fun i => (inputs.take k).all fun j => !j.same i

/-- The inputs that are not the same as one before them. -/
def firsts (inputs : List Input) : List Input :=
  ((List.range inputs.length).filter (isFirst inputs)).filterMap (inputs[·]?)

variable {i j k : Input} {inputs seen : List Input}

theorem same_trans (h : i.same j = true) (h' : j.same k = true) : i.same k = true := by
  cases i <;> cases j <;> cases k <;> simp_all [same, Path.same]

theorem any_same_addNew : (addNew seen j).any (·.same i) = (seen.any (·.same i) || j.same i) := by
  unfold addNew
  split
  · next there =>
    obtain ⟨k, member, same⟩ := List.any_eq_true.mp there
    cases hit : j.same i with
    | false => rw [Bool.or_false]
    | true =>
        rw [Bool.or_true]
        exact List.any_eq_true.mpr ⟨k, member, same_trans same hit⟩
  · simp

/-- Whatever is left out, something the same is there. -/
theorem any_same_foldl : (inputs.foldl addNew seen).any (·.same i) =
    (seen.any (·.same i) || inputs.any (·.same i)) := by
  induction inputs generalizing seen with
  | nil => simp
  | cons j inputs ih => rw [List.foldl_cons, ih, any_same_addNew, List.any_cons, Bool.or_assoc]

theorem pairwise_foldl (h : seen.Pairwise fun i j => i.same j = false) :
    (inputs.foldl addNew seen).Pairwise fun i j => i.same j = false := by
  induction inputs generalizing seen with
  | nil => exact h
  | cons i inputs ih =>
      refine ih ?_
      unfold addNew
      split
      · exact h
      · next new =>
        refine List.pairwise_append.mpr ⟨h, List.pairwise_singleton _ _, fun j member k last => ?_⟩
        cases List.mem_singleton.mp last
        exact Bool.eq_false_iff.mpr fun same => new (List.any_eq_true.mpr ⟨j, member, same⟩)

/-- That the standard input is not added twice in the first place makes no difference. -/
theorem foldl_addPattern (expand : String → List Path) (patterns : List String) :
    (patterns.foldl (addPattern expand) inputs).foldl addNew [] =
      (inputs ++ patterns.flatMap (ofPattern expand)).foldl addNew [] := by
  induction patterns generalizing inputs with
  | nil => simp
  | cons pattern patterns ih =>
      rw [List.foldl_cons, ih, List.flatMap_cons, ← List.append_assoc]
      unfold addPattern
      split
      · next again =>
        rw [Bool.and_eq_true] at again
        have stdin : ofPattern expand pattern = [.stdin] := if_pos again.1
        have there : (inputs.foldl addNew []).any (·.same .stdin) = true := by
          rw [any_same_foldl, again.2, Bool.or_true]
        have same : [Input.stdin].foldl addNew (inputs.foldl addNew []) =
            inputs.foldl addNew [] := if_pos there
        rw [stdin, List.foldl_append, List.foldl_append, List.foldl_append, same]
      · rfl

theorem isFirst_append {n : Nat} (h : n < inputs.length) (i : Input) :
    isFirst (inputs ++ [i]) n = isFirst inputs n := by
  rw [isFirst, isFirst, List.getElem?_append_left h, List.take_append_of_le_length (Nat.le_of_lt h)]

theorem isFirst_last : isFirst (inputs ++ [i]) inputs.length = !inputs.any (·.same i) := by
  simp [isFirst, List.all_eq_not_any_not]

theorem firsts_append : firsts (inputs ++ [i]) =
    firsts inputs ++ if inputs.any (·.same i) then [] else [i] := by
  have before : ((List.range inputs.length).filter (isFirst (inputs ++ [i]))).filterMap
      ((inputs ++ [i])[·]?) = firsts inputs := by
    rw [List.filter_congr fun n member => isFirst_append (List.mem_range.mp member) i]
    refine List.filterMap_congr fun n member => ?_
    exact List.getElem?_append_left (List.mem_range.mp (List.mem_filter.mp member).1)
  unfold firsts at before ⊢
  rw [List.length_append, List.length_singleton, List.range_succ, List.filter_append,
    List.filterMap_append, before]
  cases there : inputs.any (·.same i) <;> simp [isFirst_last, there]

/-- What is left out is what is the same as something before it. -/
theorem foldl_addNew_eq (inputs : List Input) : inputs.foldl addNew [] = firsts inputs := by
  induction inputs using List.reverseRecOn with
  | nil => rfl
  | append_singleton inputs i ih =>
      rw [List.foldl_append, firsts_append, ← ih, List.foldl_cons, List.foldl_nil, addNew,
        any_same_foldl, List.any_nil, Bool.false_or]
      split
      · rw [List.append_nil]
      · rfl

theorem collect_eq (expand : String → List Path) (patterns : List String) :
    collect expand patterns = firsts (patterns.flatMap (ofPattern expand)) := by
  rw [collect, foldl_addPattern, List.nil_append, foldl_addNew_eq]

theorem pairwise_collect (expand : String → List Path) (patterns : List String) :
    (collect expand patterns).Pairwise fun i j => i.same j = false :=
  pairwise_foldl .nil

/-- Reading an input leaves every other one as it is. -/
theorem text_leave (h : i.same j = false) (w : Workspace) : j.text (i.leave w) = j.text w := by
  cases i with
  | stdin =>
      cases j with
      | stdin => cases h
      | file q => rfl
  | file p => cases j <;> rfl

end Input

/-! ## Going through them -/

/-- The template that an input holds, with the name of the input. -/
def Input.template? (o : Options) (w : Workspace) (i : Input) : Option (String × Template) :=
  match i.text w with
  | .ok text => some (i.name, parse o text.toList)
  | .error _ => none

namespace Batch

/-- What is written about an input of that name when reading it gives `read`. -/
def writesFor (o : Options) (format : Format) (several : Bool) (name : String)
    (read : Except ReadFault String) : List Write :=
  match read with
  | .ok text =>
    let t := parse o text.toList
    t.diagnostics name ++ t.display format several name
  | .error fault => [.err (fault.report name)]

/-- What going through `inputs` adds to a batch, given what they hold in `w`. -/
structure Covers (o : Options) (format : Format) (several : Bool) (w : Workspace)
    (inputs : List Input) (b c : Batch) : Prop where
  writes : c.writes =
    b.writes ++ inputs.flatMap fun i => writesFor o format several i.name (i.text w)
  documents : c.documents = b.documents ++
    if format = .json then (inputs.filterMap (·.template? o w)).map fun t => t.2.document t.1
    else []
  complete : c.isComplete = true ↔
    b.isComplete = true ∧ ∀ i ∈ inputs, ∃ text, i.text w = .ok text
  errors : c.errorCount = 0 ↔
    b.errorCount = 0 ∧ ∀ t ∈ inputs.filterMap (·.template? o w), t.2.errors = []

variable {o : Options} {format : Format} {several : Bool} {w : Workspace} {i : Input}
  {inputs : List Input} {b c d : Batch}

theorem Covers.refl (b : Batch) : Covers o format several w [] b b := by
  constructor <;> simp

theorem Covers.cons (first : Covers o format several w [i] b c)
    (rest : Covers o format several w inputs c d) :
    Covers o format several w (i :: inputs) b d where
  writes := by
    rw [rest.writes, first.writes, List.append_assoc, ← List.flatMap_append]
    rfl
  documents := by
    rw [rest.documents, first.documents, List.append_assoc]
    split
    · rw [← List.map_append, ← List.filterMap_append]
      rfl
    · rfl
  complete := by
    rw [rest.complete, first.complete, and_assoc, List.forall_mem_singleton, List.forall_mem_cons]
  errors := by
    rw [rest.errors, first.errors, and_assoc, ← List.forall_mem_append, ← List.filterMap_append]
    rfl

/-- One input adds what is written about it, and no more. -/
theorem covers_step (same : i.text b.workspace = i.text w) :
    Covers o format several w [i] b (b.step o format several i) := by
  unfold step
  rw [same]
  cases read : i.text w with
  | ok text =>
      constructor
      · simp [addTemplate, writesFor, read]
      · cases format <;> simp [addTemplate, Input.template?, read]
      · simp [addTemplate, read]
      · simp [addTemplate, Input.template?, read]
  | error fault =>
      constructor
      · simp [addFault, writesFor, read]
      · simp [addFault, Input.template?, read]
      · simp [addFault, read]
      · simp [addFault, Input.template?, read]

theorem workspace_step : (b.step o format several i).workspace = i.leave b.workspace := by
  unfold step
  split <;> rfl

/-- So do all inputs together, as long as no two of them are the same: what one of them takes out of
    the workspace none of the others asks for. -/
theorem covers_foldl (apart : inputs.Pairwise fun i j => i.same j = false)
    (same : ∀ i ∈ inputs, i.text b.workspace = i.text w) :
    Covers o format several w inputs b (inputs.foldl (step o format several) b) := by
  induction inputs generalizing b with
  | nil => exact .refl b
  | cons i inputs ih =>
      obtain ⟨others, apart⟩ := List.pairwise_cons.mp apart
      obtain ⟨first, rest⟩ := List.forall_mem_cons.mp same
      refine (covers_step first).cons (ih apart fun j member => ?_)
      rw [workspace_step, Input.text_leave (others j member), rest j member]

variable {inv : Invocation}

theorem Covers.writes_finish (h : Covers o inv.format several w inputs (.start w) b) :
    (b.finish inv).writes =
      (inputs.flatMap fun i => writesFor o inv.format several i.name (i.text w)) ++
        if inv.format = .json then
          [.out (jsonOutput ((inputs.filterMap (·.template? o w)).map fun t => t.2.document t.1))]
        else [] := by
  simp only [finish, h.writes, h.documents, start, List.nil_append]
  split <;> rfl

theorem exitCode_finish (inv : Invocation) (b : Batch) :
    ((b.finish inv).exitCode = 0 ∨ (b.finish inv).exitCode = 1) ∧
    ((b.finish inv).exitCode = 0 ↔
      b.isComplete = true ∧ ¬(inv.denyErrors = true ∧ b.errorCount ≠ 0)) := by
  have fine : (b.isComplete && !(inv.denyErrors && decide (0 < b.errorCount))) = true ↔
      b.isComplete = true ∧ ¬(inv.denyErrors = true ∧ b.errorCount ≠ 0) := by
    simp only [Bool.and_eq_true, Bool.not_eq_true', ← Bool.not_eq_true, decide_eq_true_eq,
      Nat.pos_iff_ne_zero]
  rw [← fine]
  unfold finish
  dsimp only
  split
  · next fine => exact ⟨.inl rfl, iff_of_true rfl fine⟩
  · next bad => exact ⟨.inr rfl, iff_of_false Nat.one_ne_zero bad⟩

theorem Covers.exitCode_finish (h : Covers o inv.format several w inputs (.start w) b) :
    (b.finish inv).exitCode = 0 ↔ (∀ i ∈ inputs, ∃ text, i.text w = .ok text) ∧
      ¬(inv.denyErrors = true ∧ ∃ t ∈ inputs.filterMap (·.template? o w), t.2.errors ≠ []) := by
  rw [(Batch.exitCode_finish inv b).2, h.complete, ne_eq, h.errors]
  simp only [start, true_and, not_forall, exists_prop, ne_eq]

end Batch

theorem Invocation.run_eq {w : Workspace} {inv : Invocation} {config : ConfigFile}
    (loads : inv.loadConfig w = .ok config) (some : Input.collect w.expand inv.sources ≠ []) :
    let inputs := Input.collect w.expand inv.sources
    inv.run w = ((inputs.foldl (Batch.step (inv.override config.parser).toOptions inv.format
      (1 < inputs.length)) (.start w)).finish inv) := by
  intro inputs
  unfold run
  rw [loads]
  dsimp only
  split
  · next none => exact absurd none some
  · rfl

theorem ReadFault.lineBreak_not_mem_report {name : String} {fault : ReadFault}
    (h : '\n' ∉ name.toList) (h' : '\n' ∉ fault.message.toList) :
    '\n' ∉ (fault.report name).toList := by
  unfold report
  simp only [String.toList_append, List.mem_append, h, h']
  decide

/-- Patterns stand for each of their inputs once, in the order in which they come first. If those of
    a command line, or the standard input where it has none, stand for any and the configuration can
    be read, the command goes through all of them, whichever of them can be read. What it writes is
    what it writes about each one, in order, and at the end the JSON forms if these were asked for;
    and what it writes about one depends on its name, on what reading it gives and on whether there
    are others. About an input that cannot be read that is one message, on one line unless a line
    break stands in its name or in the explanation. The command succeeds if and only if every input
    can be read and none has an error that is denied. -/
theorem run_batch (w : Workspace) (inv : Invocation) :
    (∀ patterns, (Input.collect w.expand patterns).Pairwise (fun i j => i.same j = false) ∧
      Input.collect w.expand patterns =
        Input.firsts (patterns.flatMap (Input.ofPattern w.expand))) ∧
    let inputs := Input.collect w.expand inv.sources
    ∀ config, inv.loadConfig w = .ok config → inputs ≠ [] →
      let o := (inv.override config.parser).toOptions
      let about := fun i : Input =>
        Batch.writesFor o inv.format (1 < inputs.length) i.name (i.text w)
      let templates := inputs.filterMap (·.template? o w)
      (inv.run w).writes = inputs.flatMap about ++
        (if inv.format = .json then
          [.out (Batch.jsonOutput (templates.map fun t => t.2.document t.1))] else []) ∧
      (∀ i ∈ inputs, ∀ fault, i.text w = .error fault → ∃ message, about i = [.err message] ∧
        ('\n' ∉ i.name.toList → '\n' ∉ fault.message.toList → '\n' ∉ message.toList)) ∧
      ((inv.run w).exitCode = 0 ∨ (inv.run w).exitCode = 1) ∧
      ((inv.run w).exitCode = 0 ↔ (∀ i ∈ inputs, ∃ text, i.text w = .ok text) ∧
        ¬(inv.denyErrors = true ∧ ∃ t ∈ templates, t.2.errors ≠ [])) := by
  have apart := Input.pairwise_collect w.expand
  refine ⟨fun patterns => ⟨apart patterns, Input.collect_eq _ _⟩, ?_⟩
  intro inputs config loads some o about templates
  have covers : Batch.Covers o inv.format (1 < inputs.length) w inputs (.start w) _ :=
    Batch.covers_foldl (apart inv.sources) fun i _ => rfl
  rw [Invocation.run_eq loads some]
  refine ⟨covers.writes_finish, fun i _ fault read => ?_, (Batch.exitCode_finish inv _).1,
    covers.exitCode_finish⟩
  refine ⟨fault.report i.name, ?_, ReadFault.lineBreak_not_mem_report⟩
  simp only [about, read, Batch.writesFor]

/-- A template, the standard input given twice, and a file that is not there. -/
theorem run_batch_missing :
    let w : Workspace :=
      ⟨.ok "<p>", fun p => if p.text == "a" then .ok "b" else .error .notFound, fun _ => []⟩
    let inv := { Invocation.default with patterns := ["a", "-", "c", "-", "a/."], format := .stats }
    let o := (inv.override ConfigFile.default.parser).toOptions
    inv.loadConfig w = .ok .default ∧
      Input.collect w.expand inv.sources = [.file ⟨"a"⟩, .stdin, .file ⟨"c"⟩] ∧
      (inv.run w).writes = Batch.writesFor o .stats true "a" (.ok "b") ++
        (Batch.writesFor o .stats true "<stdin>" (.ok "<p>") ++
          [.err "error: failed to read c: No such file or directory (os error 2)"]) ∧
      (inv.run w).exitCode = 1 := by
  intro w inv o
  have loads : inv.loadConfig w = .ok .default := rfl
  have inputs : Input.collect w.expand inv.sources = [.file ⟨"a"⟩, .stdin, .file ⟨"c"⟩] := by
    decide +kernel
  have batch := run_batch w inv
  rw [inputs] at batch
  obtain ⟨writes, _, bounded, success⟩ := batch.2 .default loads nofun
  have message : ReadFault.notFound.report "c" =
      "error: failed to read c: No such file or directory (os error 2)" := by decide +kernel
  have stats : inv.format ≠ .json := nofun
  refine ⟨loads, inputs, ?_, bounded.resolve_left fun zero => ?_⟩
  · rw [writes, if_neg stats, List.append_nil, ← message]
    rfl
  · obtain ⟨text, read⟩ := (success.mp zero).1 (.file ⟨"c"⟩) (by decide)
    cases read

/-- The message about an input whose name has a line break in it takes two lines. -/
theorem report_on_two_lines :
    let w : Workspace := ⟨.ok "", fun _ => .error .notFound, fun _ => []⟩
    let inv := { Invocation.default with patterns := ["a\nb"] }
    let i := Input.file ⟨"a\nb"⟩
    inv.loadConfig w = .ok .default ∧ Input.collect w.expand inv.sources = [i] ∧
      i.text w = .error .notFound ∧
      ((inv.run w).stderr.flatMap fun message => Text.pieces (· == '\n') message.toList) =
        ["error: failed to read a", "b: No such file or directory (os error 2)"].map
          String.toList := by
  intro w inv i
  refine ⟨rfl, by decide +kernel, rfl, ?_⟩
  decide +kernel

end Stencil
