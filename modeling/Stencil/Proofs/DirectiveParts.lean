import Stencil.Proofs.AttributeList
import Stencil.Proofs.Bytewise.Directive
import Stencil.Proofs.Pattern

/-! # The parts of directives

The name of a directive falls into a head, an argument and a remainder. Here this is said without
the functions that take it apart, once by what each part may hold, and once by a pattern whose
groups are the parts. From there on each part of the directive has its place in the name.
-/

namespace Stencil

namespace DirectiveName

/-- The marks that a name can start with instead of `v-`, and the directives they stand for. -/
def marks : List (Char × List Char) :=
  [(':', "bind".toList), ('.', "bind".toList), ('@', "on".toList), ('#', "slot".toList)]

/-- How a name starts, what follows, and the directive: `v-` with a name that is as long as it can
    be, or nothing before a mark. -/
inductive Starts : List Char → List Char → List Char → Prop where
  | named {d s : List Char} (nonempty : d ≠ []) (all : ∀ c ∈ d, isNameChar c = true)
      (stop : s.head?.all (fun c => !isNameChar c) = true) : Starts ('v' :: '-' :: d) s d
  | mark {c : Char} {name s : List Char} (known : (c, name) ∈ marks) : Starts [] (c :: s) name

/-- An argument and what follows it: a bracket that holds something, up to the first one that
    closes it, or else everything before a dot. -/
inductive IsArgument : List Char → List Char → Prop where
  | bracket {inner rest : List Char} (nonempty : inner ≠ []) (first : ']' ∉ inner) :
      IsArgument ('[' :: (inner ++ [']'])) rest
  | plain {run rest : List Char} (nonempty : run ≠ []) (all : '.' ∉ run)
      (stop : rest.head?.all (· == '.') = true)
      (other : ∀ inner s, run ++ rest = '[' :: (inner ++ ']' :: s) → inner ≠ [] → ']' ∈ inner) :
      IsArgument run rest

/-- A name and its parts. There is an argument if a separator is there and something other than a
    dot follows it; otherwise the separator is left to the remainder. -/
inductive FallsInto : List Char → DirectiveName → Prop where
  | argument {start arg rest name : List Char} {c : Char}
      (starts : Starts start (c :: (arg ++ rest)) name)
      (separator : isSeparator start.isEmpty c = true) (isArgument : IsArgument arg rest) :
      FallsInto (start ++ c :: (arg ++ rest)) ⟨start ++ [c], some arg, rest, name⟩
  | bare {start rest name : List Char} (starts : Starts start rest name)
      (other : ∀ c s, rest = c :: s → isSeparator start.isEmpty c = true →
        s.head?.all (· == '.') = true) :
      FallsInto (start ++ rest) ⟨start, none, rest, name⟩

variable {n s arg start tail name : List Char}

/-! ## Taking a name apart -/

theorem isArgument_of_argument? (h : argument? s = some arg) :
    ∃ rest, s = arg ++ rest ∧ IsArgument arg rest := by
  have plain : (∀ inner t, s = '[' :: (inner ++ ']' :: t) → inner ≠ [] → ']' ∈ inner) →
      (if (s.takeWhile (· != '.')).isEmpty then none else some (s.takeWhile (· != '.'))) =
        some arg → ∃ rest, s = arg ++ rest ∧ IsArgument arg rest := by
    intro other h
    split at h
    · cases h
    · next nonempty =>
      cases h
      have whole := List.prefix_iff_eq_append.mp (List.takeWhile_prefix (· != '.') (l := s))
      refine ⟨_, whole.symm, .plain (by simpa using nonempty) ?_ ?_ ?_⟩
      · intro dot
        simpa using List.all_eq_true.mp List.all_takeWhile '.' dot
      · simpa [bne] using Text.head?_dropWhile_all (p := (· != '.')) s
      · rwa [whole]
  unfold argument? at h
  dsimp only at h
  split at h
  · next t =>
    split at h
    · next closed =>
      cases h
      obtain ⟨nonempty, short⟩ := Bool.and_eq_true_iff.mp closed
      obtain ⟨rest, whole⟩ := takeWhile_ne_append_prefix (of_decide_eq_true short)
      refine ⟨rest, ?_, .bracket (by simpa using nonempty) fun member => ?_⟩
      · exact congrArg ('[' :: ·) whole.symm
      · simpa using List.all_eq_true.mp List.all_takeWhile ']' member
    · next closed =>
      refine plain (fun inner u text nonempty => ?_) h
      -- A bracket that closes before any other would have been taken.
      by_contra first
      cases text
      have run : (inner ++ ']' :: u).takeWhile (· != ']') = inner := by
        refine Text.takeWhile_append (fun c member => ?_) rfl
        simp only [bne_iff_ne, ne_eq]
        rintro rfl
        exact first member
      simp [run, nonempty] at closed
  · next other =>
    exact plain (fun inner t text _ => absurd text (other _)) h

theorem head?_of_argument?_eq_none (h : argument? s = none) : s.head?.all (· == '.') = true := by
  unfold argument? at h
  dsimp only at h
  cases s with
  | nil => rfl
  | cons c s =>
      by_cases dot : c = '.'
      · simp [dot]
      · split at h
        · split at h
          · cases h
          · simp [dot] at h
        · simp [dot] at h

theorem of_mem_marks {c : Char} (known : (c, name) ∈ marks) (s : List Char) :
    explicit (c :: s) = [] ∧ shorthand (c :: s) = name ∧ c ≠ 'v' ∧ c ≠ 'V' := by
  simp only [marks, List.mem_cons, Prod.mk.injEq, List.not_mem_nil, or_false] at known
  rcases known with ⟨rfl, rfl⟩ | ⟨rfl, rfl⟩ | ⟨rfl, rfl⟩ | ⟨rfl, rfl⟩ <;> simp [explicit, shorthand]

/-- The explicit name in a name that starts in some way, and what follows from it. -/
theorem explicit_append (h : Starts start tail name) :
    (explicit (start ++ tail)).isEmpty = start.isEmpty ∧
      (if start.isEmpty then [] else 'v' :: '-' :: explicit (start ++ tail)) = start ∧
      (if start.isEmpty then shorthand (start ++ tail) else explicit (start ++ tail)) = name := by
  cases h with
  | named nonempty all stop =>
      have run := Text.takeWhile_append all stop
      simp [explicit, run, nonempty]
  | @mark c _ s known =>
      obtain ⟨none, named, _⟩ := of_mem_marks known s
      simp [none, named]

theorem exists_starts (h : isDirectiveName n = true) :
    ∃ start tail name, n = start ++ tail ∧ Starts start tail name := by
  unfold isDirectiveName at h
  split at h
  · next c s =>
    have member : isNameChar c = true := by
      unfold isNameChar
      rw [h]
      rfl
    refine ⟨'v' :: '-' :: (c :: s).takeWhile isNameChar,
      (c :: s).drop ((c :: s).takeWhile isNameChar).length, _, ?_, .named ?_ ?_ ?_⟩
    · simpa using (List.prefix_iff_eq_append.mp (List.takeWhile_prefix isNameChar)).symm
    · simp [member]
    · exact List.all_eq_true.mp List.all_takeWhile
    · exact Text.head?_dropWhile_all _
  · next c s _ =>
    have known : ∃ name, (c, name) ∈ marks := by
      simp only [Bool.or_eq_true, beq_iff_eq] at h
      rcases h with ((rfl | rfl) | rfl) | rfl <;> simp [marks]
    obtain ⟨name, known⟩ := known
    exact ⟨[], c :: s, name, rfl, .mark known⟩
  · cases h

/-- Every name that makes a directive falls into the parts it is split into. -/
theorem fallsInto_split (h : isDirectiveName n = true) : FallsInto n (split n) := by
  obtain ⟨start, tail, name, rfl, starts⟩ := exists_starts h
  obtain ⟨empty, whole, named⟩ := explicit_append starts
  simp only [split, empty, whole, named, List.drop_left]
  cases tail with
  | nil => exact .bare starts nofun
  | cons c s =>
      dsimp only
      split
      · next separator =>
        split
        · next arg found =>
          obtain ⟨rest, rfl, isArgument⟩ := isArgument_of_argument? found
          rw [List.drop_left]
          exact .argument starts separator isArgument
        · next missing =>
          refine .bare starts fun _ _ same _ => ?_
          cases same
          exact head?_of_argument?_eq_none missing
      · next other =>
        refine .bare starts fun _ _ same separator => ?_
        cases same
        exact absurd separator other

theorem FallsInto.append {x : DirectiveName} (h : FallsInto n x) :
    x.head ++ (x.rawArg.getD [] ++ x.remainder) = n := by
  cases h <;> simp

/-! ## The pattern of names -/

open Pattern

/-- `^v-([a-z0-9-]+)`, in which case makes no difference. -/
def startPattern : Pattern :=
  .seq .start (.seq (.one fun c => c == 'v' || c == 'V')
    (.seq (.one (· == '-')) (.group 1 (.many isNameChar))))

/-- `:|^\.|^@|^#` -/
def separatorPattern : Pattern :=
  .alt (.one (· == ':')) (.alt (.seq .start (.one (· == '.')))
    (.alt (.seq .start (.one (· == '@'))) (.seq .start (.one (· == '#')))))

/-- `\[[^\]]+\]|[^\.]+` -/
def argumentPattern : Pattern :=
  .alt (.seq (.one (· == '[')) (.seq (.many (· != ']')) (.one (· == ']')))) (.many (· != '.'))

/-- `(.+)?$` -/
def remainderPattern : Pattern :=
  .seq (.opt (.group 3 (.many (· != '\n')))) .stop

/-- The pattern of directive names: an optional start, then an optional argument behind its
    separator, then the remainder. -/
def pattern : Pattern :=
  .seq (.opt startPattern)
    (.seq (.opt (.seq separatorPattern (.group 2 argumentPattern))) remainderPattern)

/-- What a match of the pattern with a name notes, if the name has these parts. -/
structure Captures (n : List Char) (x : DirectiveName) (m : Match) : Prop where
  whole : m.group 0 = some ⟨[], n⟩
  name : m.group 1 = if n.head? = some 'v' then some ⟨['v', '-'], x.name⟩ else none
  arg : m.group 2 = x.rawArg.map (⟨x.head, ·⟩)
  remainder : m.group 3 =
    if x.remainder = [] then none else some ⟨x.head ++ x.rawArg.getD [], x.remainder⟩

variable {before rest : List Char} {noted : List (Nat × Part)}

/-- What is noted of the start of a name. -/
def startNotes (start name : List Char) : List (Nat × Part) :=
  if start.isEmpty then [] else [(1, ⟨['v', '-'], name⟩)]

theorem prefers_startPattern (h : Starts start tail name) :
    Prefers (.opt startPattern) ⟨[], start ++ tail, []⟩ ⟨start, tail, startNotes start name⟩ := by
  cases h with
  | named nonempty all stop =>
      exact .opt (.seq (prefers_start rfl) (.seq (prefers_one rfl)
        (.seq (prefers_one rfl) ((prefers_many nonempty all stop).group 1))))
  | @mark c _ s known =>
      obtain ⟨_, _, small, capital⟩ := of_mem_marks known s
      refine .opt_of_fails (.seq_right (k := ⟨[], c :: s, []⟩) rfl (.seq_left (fails_one ?_)))
      simp [small, capital]

theorem ways_separatorPattern (c : Char) (s : List Char) :
    ways separatorPattern ⟨before, c :: s, noted⟩ =
      if isSeparator before.isEmpty c then [⟨before ++ [c], s, noted⟩] else [] := by
  simp only [separatorPattern, isSeparator, ways_alt, ways_seq, ways_start, ways_one_cons]
  by_cases colon : c = ':'
  · subst colon
    cases before.isEmpty <;> simp [ways_one_cons]
  · cases before.isEmpty with
    | false => simp [colon]
    | true =>
        by_cases dot : c = '.' <;> by_cases strudel : c = '@' <;> by_cases hash : c = '#' <;>
          simp_all [ways_one_cons]

/-- The first alternative asks for a bracket that closes before any other, and only the longest run
    in between can be followed by it. -/
theorem fails_bracket
    (h : ∀ inner s, tail = '[' :: (inner ++ ']' :: s) → inner ≠ [] → ']' ∈ inner) :
    Fails (.seq (.one (· == '[')) (.seq (.many (· != ']')) (.one (· == ']'))))
      ⟨before, tail, noted⟩ := by
  by_cases starts : tail.head? = some '['
  · obtain ⟨t, rfl⟩ := List.head?_eq_some_iff.mp starts
    refine .seq_right (k := ⟨before ++ ['['], t, noted⟩) rfl (.seq fun k member => fails_one ?_)
    obtain ⟨x, run, rfl⟩ := List.mem_map.mp member
    obtain ⟨inner, nonempty, all, rest⟩ := exists_of_mem_runs run
    intro c next
    obtain ⟨s, next⟩ := List.head?_eq_some_iff.mp next
    by_contra closing
    have same : c = ']' := by simpa using closing
    have inside := h inner s (by rw [← same, ← next, ← rest]) nonempty
    simpa using all _ inside
  · refine .seq_left (fails_one fun c next => ?_)
    rw [next] at starts
    simpa using starts

theorem prefers_argumentPattern (h : IsArgument arg rest) :
    Prefers argumentPattern ⟨before, arg ++ rest, noted⟩ ⟨before ++ arg, rest, noted⟩ := by
  cases h with
  | @bracket inner _ nonempty first =>
      have run : Prefers (.many (· != ']')) ⟨before ++ ['['], inner ++ ([']'] ++ rest), noted⟩
          ⟨before ++ ['['] ++ inner, [']'] ++ rest, noted⟩ :=
        prefers_many nonempty (fun c member => by grind) rfl
      have whole := Prefers.seq (prefers_one (p := (· == '[')) rfl)
        (run.seq (prefers_one (p := (· == ']')) rfl))
      simpa [argumentPattern] using whole.alt_left
  | plain nonempty all stop other =>
      refine .alt_right (fails_bracket other) (prefers_many nonempty (fun c member => by grind) ?_)
      simpa [bne] using stop

theorem fails_argumentPattern (h : s.head?.all (· == '.') = true) :
    Fails argumentPattern ⟨before, s, noted⟩ := by
  refine .alt (.seq_left (fails_one ?_)) (fails_many ?_) <;> cases s <;> simp_all

/-- What is noted of the remainder of a name. -/
def remainderNotes (before rest : List Char) : List (Nat × Part) :=
  if rest.isEmpty then [] else [(3, ⟨before, rest⟩)]

theorem prefers_remainderPattern (line : '\n' ∉ rest) :
    Prefers remainderPattern ⟨before, rest, noted⟩
      ⟨before ++ rest, [], remainderNotes before rest ++ noted⟩ := by
  cases rest with
  | nil =>
      rw [List.append_nil]
      exact .seq (.opt_of_fails (.group (fails_many (by simp)) 3)) (prefers_stop rfl)
  | cons c rest =>
      have run : Prefers (.many (· != '\n')) ⟨before, c :: rest ++ [], noted⟩
          ⟨before ++ c :: rest, [], noted⟩ :=
        prefers_many (List.cons_ne_nil c rest) (fun d member => by grind) rfl
      rw [List.append_nil] at run
      exact .seq (.opt (run.group 3)) (prefers_stop rfl)

theorem Starts.head? (h : Starts start tail name) :
    (start ++ tail).head? = some 'v' ↔ start.isEmpty = false := by
  cases h with
  | named => simp
  | @mark c _ s known => simp [(of_mem_marks known s).2.2.1]

/-- What is noted of the argument of a name. -/
def argumentNotes (x : DirectiveName) : List (Nat × Part) :=
  (x.rawArg.map fun arg => (2, ⟨x.head, arg⟩)).toList

theorem FallsInto.prefers_argument {x : DirectiveName} (h : FallsInto n x) :
    ∃ start tail, n = start ++ tail ∧ Starts start tail x.name ∧ ∀ noted,
      Prefers (.opt (.seq separatorPattern (.group 2 argumentPattern))) ⟨start, tail, noted⟩
        ⟨x.head ++ x.rawArg.getD [], x.remainder, argumentNotes x ++ noted⟩ := by
  cases h with
  | @argument start arg rest name c starts separator isArgument =>
      refine ⟨start, _, rfl, starts, fun noted =>
        .opt (.seq ?_ ((prefers_argumentPattern isArgument).group 2))⟩
      simp [Prefers, ways_separatorPattern, separator]
  | @bare start rest name starts other =>
      refine ⟨start, rest, rfl, starts, fun noted => ?_⟩
      rw [Option.getD_none, List.append_nil]
      refine .opt_of_fails ?_
      cases rest with
      | nil =>
          simp [Fails, separatorPattern, ways_seq, ways_alt, ways_start, ways_one_nil]
      | cons c s =>
          by_cases separator : isSeparator start.isEmpty c = true
          · have only : ways separatorPattern ⟨start, c :: s, noted⟩ = _ :=
              ways_separatorPattern c s
            rw [if_pos separator] at only
            exact .seq_right only (.group (fails_argumentPattern (other c s rfl separator)) 2)
          · exact .seq_left (by simp [Fails, ways_separatorPattern, separator])

/-- The pattern matches the whole name, and its groups are the parts. -/
theorem find_pattern {x : DirectiveName} (h : FallsInto n x) (line : '\n' ∉ n) :
    ∃ m, pattern.find n = some m ∧ Captures n x m := by
  obtain ⟨start, tail, rfl, starts, argument⟩ := h.prefers_argument
  have parts := h.append
  have remainder : '\n' ∉ x.remainder := by
    intro member
    rw [← parts] at line
    simp [member] at line
  have whole : Prefers pattern ⟨[], start ++ tail, []⟩ _ :=
    (prefers_startPattern starts).seq ((argument _).seq (prefers_remainderPattern remainder))
  rw [List.append_assoc, parts] at whole
  refine ⟨_, find_of_prefers (whole.group 0), rfl, ?_, ?_, ?_⟩
  all_goals
    simp only [Match.group, remainderNotes, argumentNotes, startNotes, starts.head?]
    cases start.isEmpty <;> cases x.rawArg <;> cases x.remainder <;> rfl

end DirectiveName

/-! ## What the parts say -/

/-- The place of a text behind the text `before` at a cursor. -/
def Cursor.place (c : Cursor) (before text : List Char) : Location :=
  ⟨c.position.past before, c.position.past (before ++ text), text⟩

theorem Cursor.skip_of_append {c : Cursor} {s t : List Char} (h : c.rest = s ++ t) :
    c.skip s.length = ⟨c.position.past s, t⟩ := by
  rw [skip, h, List.take_left, List.drop_left]

theorem Cursor.locationTo_eq_place {c : Cursor} {before text : List Char}
    (h : before ++ text <+: c.rest) :
    (c.skip before.length).locationTo (c.skip (before.length + text.length)) =
      c.place before text := by
  obtain ⟨t, rest⟩ := h
  have first : c.skip before.length = ⟨c.position.past before, text ++ t⟩ :=
    skip_of_append (by rw [← rest, List.append_assoc])
  rw [← skip_skip, locationTo, textTo_skip, first, skip_of_append rfl]
  simp [place, Position.past_append]

theorem Text.not_of_mem_pieces {p : Char → Bool} {s m : List Char} (h : m ∈ pieces p s) :
    ∀ c ∈ m, p c = false := by
  induction s generalizing m with
  | nil => simp_all [pieces]
  | cons c s ih =>
      rw [pieces] at h
      split at h
      · rcases List.mem_cons.mp h with rfl | later
        · exact List.forall_mem_nil _
        · exact ih later
      · next other =>
        split at h
        · simp_all
        · next w ws found =>
          rw [found] at ih
          rcases List.mem_cons.mp h with rfl | later
          · exact List.forall_mem_cons.mpr ⟨by simpa using other, ih List.mem_cons_self⟩
          · exact ih (List.mem_cons_of_mem w later)

namespace DirectiveName

/-- What belongs to an argument. The name of a slot may hold dots, so there the remainder does. -/
def covered (x : DirectiveName) (arg : List Char) : List Char :=
  if x.name = "slot".toList then arg ++ x.remainder else arg

/-- The argument that the parts of a name at a cursor stand for, and the errors in it. It is a name,
    or in brackets an expression. -/
inductive Argument (c : Cursor) (x : DirectiveName) :
    Option Expression → List ErrorCode → Prop where
  | absent (raw : x.rawArg = none) : Argument c x none []
  | name {arg : List Char} (raw : x.rawArg = some arg) (plain : arg.head? ≠ some '[') :
      Argument c x (some ⟨x.covered arg, true, c.place x.head (x.covered arg)⟩) []
  | closed {inner : List Char} (raw : x.rawArg = some ('[' :: (inner ++ [']']))) :
      Argument c x
        (some ⟨inner, false, c.place x.head (x.covered ('[' :: (inner ++ [']'])))⟩) []
  | unclosed {inner : List Char} (raw : x.rawArg = some ('[' :: inner))
      (last : inner.getLast? ≠ some ']') :
      Argument c x (some ⟨inner, false, c.place x.head (x.covered ('[' :: inner))⟩)
        [.missingDynamicDirectiveArgumentEnd]

/-- The modifiers in a text behind the text `before` at a cursor: what stands between its dots. -/
inductive Modifiers (c : Cursor) : List Char → List Char → List Expression → Prop where
  | last {before m : List Char} (plain : '.' ∉ m) :
      Modifiers c before m [⟨m, true, c.place before m⟩]
  | cons {before m rest : List Char} {ms : List Expression} (plain : '.' ∉ m)
      (others : Modifiers c (before ++ m ++ ['.']) rest ms) :
      Modifiers c before (m ++ '.' :: rest) (⟨m, true, c.place before m⟩ :: ms)

/-- The modifiers that the remainder of a name spells out, its first character not being part of
    any. -/
inductive Spells (c : Cursor) (x : DirectiveName) : List Expression → Prop where
  | nothing (empty : x.remainder = []) : Spells c x []
  | some {lead : Char} {rest : List Char} {ms : List Expression}
      (remainder : x.remainder = lead :: rest)
      (modifiers : Modifiers c (x.head ++ x.rawArg.getD [] ++ [lead]) rest ms) : Spells c x ms

/-- The directive is what the name `n` at a cursor says, part by part. -/
structure Describes (c : Cursor) (n : List Char) (x : DirectiveName) (d : Directive)
    (errors : List ErrorCode) : Prop where
  rawName : d.rawName = n
  name : d.name = x.name
  arg : Argument c x d.arg errors
  modifiers : ∃ ms, Spells c x ms ∧
    d.modifiers = ms ++ if n.head? = some '.' then [⟨"prop".toList, true, c.place [] ['.']⟩] else []

variable {c : Cursor} {n before s : List Char} {x : DirectiveName}

theorem argument_argOf (named : n <+: c.rest)
    (parts : x.head ++ (x.rawArg.getD [] ++ x.remainder) = n) :
    Argument c x (Directive.argOf c n x)
      (if x.rawArg.any Directive.isUnclosed then [.missingDynamicDirectiveArgumentEnd]
        else []) := by
  unfold Directive.argOf
  cases raw : x.rawArg with
  | none => exact .absent raw
  | some arg =>
      rw [raw, Option.getD_some] at parts
      have whole : n.drop x.head.length = arg ++ x.remainder := by
        rw [← parts, List.drop_left]
      have loc : (c.skip x.head.length).locationTo
          (c.skip (if x.name == "slot".toList then n.length else x.head.length + arg.length)) =
          c.place x.head (x.covered arg) := by
        have covered : x.head ++ x.covered arg <+: c.rest := by
          refine List.IsPrefix.trans ?_ named
          rw [← parts, covered]
          split <;> simp [List.prefix_append_right_inj]
        rw [← Cursor.locationTo_eq_place covered, DirectiveName.covered, ← parts]
        simp only [beq_iff_eq]
        split <;> simp
      simp only [Option.map_some, Option.any_some, whole, loc]
      by_cases bracket : arg.head? = some '['
      · obtain ⟨inner, rfl⟩ := List.head?_eq_some_iff.mp bracket
        by_cases last : inner.getLast? = some ']'
        · obtain ⟨inside, rfl⟩ := List.getLast?_eq_some_iff.mp last
          simpa [Directive.argContent, Directive.isUnclosed] using Argument.closed (c := c) raw
        · simpa [Directive.argContent, Directive.isUnclosed, last] using
            Argument.unclosed (c := c) raw last
      · have other : ∀ inner, arg = '[' :: inner → False := by
          rintro inner rfl
          exact bracket rfl
        simpa [Directive.argContent, Directive.isUnclosed, covered, other] using
          Argument.name (c := c) raw bracket

theorem modifiers_placeModifiers (h : before ++ s <+: c.rest) :
    Modifiers c before s
      (Directive.placeModifiers c before.length (Text.pieces (· == '.') s)) := by
  generalize found : Text.pieces (· == '.') s = ms
  induction ms generalizing before s with
  | nil =>
      have some := Text.length_pieces (· == '.') s
      simp [found] at some
  | cons m ms ih =>
      have plain : '.' ∉ m := by
        have member : m ∈ Text.pieces (· == '.') s := by simp [found]
        intro dot
        exact absurd (Text.not_of_mem_pieces member '.' dot) (by simp)
      rcases Text.pieces_eq_cons found with ⟨rfl, rfl⟩ | ⟨d, rest, rfl, dot, later⟩
      · rw [Directive.placeModifiers, Cursor.locationTo_eq_place h]
        exact .last plain
      · cases beq_iff_eq.mp dot
        have next : (before ++ m ++ ['.']) ++ rest <+: c.rest := by simpa using h
        have first : before ++ m <+: c.rest := by
          refine List.IsPrefix.trans ?_ h
          simp [List.prefix_append_right_inj]
        have others := ih next later
        rw [List.length_append, List.length_append] at others
        rw [Directive.placeModifiers, Cursor.locationTo_eq_place first]
        exact .cons plain others

theorem spells_spelledModifiers (named : n <+: c.rest)
    (parts : x.head ++ (x.rawArg.getD [] ++ x.remainder) = n) :
    Spells c x (Directive.spelledModifiers c x) := by
  unfold Directive.spelledModifiers
  cases remainder : x.remainder with
  | nil => exact .nothing remainder
  | cons lead rest =>
      have text : (x.head ++ x.rawArg.getD [] ++ [lead]) ++ rest <+: c.rest := by
        rw [remainder] at parts
        rw [← parts] at named
        simpa using named
      have modifiers := modifiers_placeModifiers text
      have place : (x.head ++ x.rawArg.getD [] ++ [lead]).length =
          x.head.length + x.rawArg.elim 0 List.length + 1 := by
        cases x.rawArg <;> simp [Nat.add_assoc]
      rw [place] at modifiers
      exact .some remainder modifiers

/-- What is built for a name at a cursor says what the name says. -/
theorem describes_build {o : Options} (modern : o.legacy = none) (named : n <+: c.rest)
    (falls : FallsInto n (split n)) (after : Cursor) (value : Option AttributeValue) :
    ∃ codes, Describes c n (split n) (Directive.build o c after n value).1 codes ∧
      (Directive.build o c after n value).2.errors = codes.map (.at · after.position) := by
  have arg := argument_argOf named falls.append
  have same : (Directive.build o c after n value).1.arg = Directive.argOf c n (split n) := by
    simp [Directive.build, modern, Directive.modernize_none]
  refine ⟨_, ⟨(Directive.build_eq o c after n value).1, ?_, same ▸ arg, ?_⟩, ?_⟩
  · simp [Directive.build, modern, Directive.modernize_none]
  · refine ⟨_, spells_spelledModifiers named falls.append, ?_⟩
    simp only [Directive.build, modern, Directive.modernize_none, Directive.modifiersOf,
      beq_iff_eq]
    split
    · next dot =>
      obtain ⟨t, rfl⟩ := List.head?_eq_some_iff.mp dot
      have first : [] ++ ['.'] <+: c.rest := (List.prefix_append ['.'] t).trans named
      rw [← Cursor.locationTo_eq_place first]
      rfl
    · rfl
  · simp only [Directive.build]
    split <;> rfl

/-- Only the first character of an attribute name can be a line break, and that of a directive is
    none. -/
theorem lineBreak_not_mem_nameAt (h : isDirectiveName (Property.nameAt s) = true) :
    '\n' ∉ Property.nameAt s := by
  cases s with
  | nil => cases h
  | cons x s =>
      intro member
      rcases List.mem_cons.mp member with same | later
      · simp [Property.nameAt, ← same, isDirectiveName] at h
      · exact absurd (List.all_eq_true.mp List.all_takeWhile '\n' later) (by decide)

end DirectiveName

open DirectiveName in
/-- An attribute whose name makes it a directive is one. Its name falls into a head, an argument and
    a remainder, which follow each other, and which are what the pattern of such names finds in it.
    The directive consists of what these parts say, each in its place; and of all that is wrong with
    directives, at most that an argument is not closed is reported of it, where it ends. -/
theorem read_directive (o : Options) (modern : o.legacy = none) (seen : List (List Char))
    (c : Cursor) (named : isDirectiveName (Property.nameAt c.rest) = true) :
    let n := Property.nameAt c.rest
    let r := Property.read o false seen c
    ∃ d x m codes, r.value = .directive d ∧ FallsInto n x ∧
      n = x.head ++ (x.rawArg.getD [] ++ x.remainder) ∧
      pattern.find n = some m ∧ Captures n x m ∧ Describes c n x d codes ∧
      r.log.errors.filter (·.code.isAboutDirective) = codes.map (.at · r.cursor.position) := by
  intro n r
  have falls := fallsInto_split named
  obtain ⟨m, found, captures⟩ := find_pattern falls (lineBreak_not_mem_nameAt named)
  let value := Property.readValue o (c.skip n.length)
  let built := Directive.build o c value.cursor n value.value
  obtain ⟨codes, describes, errors⟩ :=
    describes_build modern (Property.nameAt_prefix c.rest) falls value.cursor value.value
  have read : r = ⟨.directive built.1, value.cursor,
      .ofErrors (Property.nameErrors seen n c) ++ value.log ++ built.2⟩ := by
    simp only [r, Property.read, named, Bool.not_false, Bool.and_self, if_true]
    rfl
  refine ⟨built.1, split n, m, codes, by rw [read], falls, falls.append.symm, found, captures,
    describes, ?_⟩
  -- Neither what is wrong with the name as such nor what is wrong with the value counts here.
  have names := (Property.allOf_nameErrors seen c n).filter_eq_nil fun k h =>
    ErrorCode.not_isAboutDirective (.inl h)
  have values : value.log.errors.filter (·.code.isAboutDirective) = [] :=
    (Property.log_readValue o (c.skip n.length)).1.filter_eq_nil fun k h =>
      ErrorCode.not_isAboutDirective (.inr h)
  have own : built.2.errors.filter (·.code.isAboutDirective) = built.2.errors := by
    simp only [built, Directive.build]
    split <;> rfl
  rw [read]
  simp only [Log.errors_append, Log.errors_ofErrors, List.filter_append, names, values, own,
    List.nil_append]
  exact errors

open DirectiveName in
/-- A shorthand dot with an argument that opens a bracket and a modifier that a dot cuts off. -/
theorem read_directive_unclosed :
    let c := Cursor.ofText ".[a.b='x' c".toList
    let n := Property.nameAt c.rest
    Options.base.legacy = none ∧ isDirectiveName n = true ∧
      ∃ d x, (Property.read .base false [] c).value = .directive d ∧ FallsInto n x ∧
        x.rawArg.map (Pattern.Part.mk x.head) = some ⟨['.'], ['[', 'a']⟩ ∧
        Describes c n x d [.missingDynamicDirectiveArgumentEnd] := by
  intro c n
  have named : isDirectiveName n = true := by decide
  obtain ⟨d, x, m, codes, value, falls, _, found, captures, describes, errors⟩ :=
    read_directive .base rfl [] c named
  have group : (pattern.find n).bind (·.group 2) = some ⟨['.'], ['[', 'a']⟩ := by decide +kernel
  have reported : ((Property.read .base false [] c).log.errors.filter
      (·.code.isAboutDirective)).map (·.code) = [.missingDynamicDirectiveArgumentEnd] := by
    decide +kernel
  have one : codes = [.missingDynamicDirectiveArgumentEnd] := by
    rw [errors] at reported
    simpa [Function.comp_def] using reported
  rw [found, Option.bind_some, captures.arg] at group
  exact ⟨rfl, named, d, x, value, falls, group, one ▸ describes⟩

end Stencil
