import Stencil.Proofs.Bytewise.Scanner
import Stencil.Proofs.Location

/-! # Positions do not depend on the way

Going over a text in two steps leads to the same position as going over it in one, whether the
column is counted from the last line break that was passed or from where the step began. So a cursor
need not know more than its position and its template: it may be moved in any steps, and set back to
where it was before, and still stands where a single step from the start would have led it.
-/

namespace Stencil

/-! ## Two steps and one -/

namespace Text

/-- The first `n` bytes of a text are whole characters. -/
def IsBoundary (s : List Char) (n : Nat) : Prop :=
  ∃ t, t <+: s ∧ byteLength t = n

/-- Two boundaries cut a text into three. -/
theorem IsBoundary.exists_append {s : List Char} {a b : Nat} (first : IsBoundary s a)
    (second : IsBoundary s (a + b)) :
    ∃ t u v, s = t ++ (u ++ v) ∧ byteLength t = a ∧ byteLength u = b := by
  obtain ⟨t, ⟨rest, rfl⟩, rfl⟩ := first
  obtain ⟨w, starts, length⟩ := second
  rcases List.prefix_or_prefix_of_prefix starts (List.prefix_append t rest) with short | long
  · -- The second boundary is not before the first one, so they are the same.
    obtain ⟨d, rfl⟩ := short
    rw [byteLength_append] at length
    refine ⟨w ++ d, [], rest, rfl, rfl, ?_⟩
    rw [byteLength_nil]
    omega
  · obtain ⟨u, rfl⟩ := long
    obtain ⟨v, rfl⟩ := (List.prefix_append_right_inj t).mp starts
    refine ⟨t, u, v, rfl, rfl, ?_⟩
    rw [byteLength_append] at length
    omega

end Text

theorem Cursor.positionAt_append (p : Position) (s t : List Char) :
    (Cursor.mk p (s ++ t)).positionAt (Text.byteLength s) = .ok (p.past s) := by
  simp [positionAt, moveTo?, Text.takeBytes?_byteLength_append, skip]

theorem Checked.past_append {p : Position} {s : List Char} (fits : (p.past s).Fits)
    (t : List Char) : past p (s ++ t) (Text.byteLength s) = .ok (p.past s) := by
  have step := @past_take p (s ++ t) s.length
  rw [List.take_left] at step
  exact step fits

/-- Going over the first bytes of a text and then over the next ones leads to the position to which
    going over all of them at once leads, for cursors and, as far as the positions fit, in 32 bits. -/
theorem positionAt_additive (source : List Char) (p : Position) {a b : Nat}
    (first : Text.IsBoundary source a) (second : Text.IsBoundary source (a + b)) :
    ∃ q r rest, Text.cutFrom source a = .ok rest ∧
      (Cursor.mk p source).positionAt a = .ok q ∧ (Cursor.mk q rest).positionAt b = .ok r ∧
      (Cursor.mk p source).positionAt (a + b) = .ok r ∧
      (q.Fits → r.Fits → Checked.past p source a = .ok q ∧ Checked.past q rest b = .ok r ∧
        Checked.past p source (a + b) = .ok r) := by
  obtain ⟨t, u, v, rfl, rfl, rfl⟩ := first.exists_append second
  have whole : t ++ (u ++ v) = (t ++ u) ++ v := (List.append_assoc t u v).symm
  have total : Text.byteLength t + Text.byteLength u = Text.byteLength (t ++ u) :=
    (Text.byteLength_append t u).symm
  have twice : (p.past t).past u = p.past (t ++ u) := (Position.past_append p t u).symm
  refine ⟨p.past t, p.past (t ++ u), u ++ v, Text.cutFrom_append t (u ++ v),
    Cursor.positionAt_append p t (u ++ v), ?_, ?_, fun near far =>
      ⟨Checked.past_append near (u ++ v), ?_, ?_⟩⟩
  · rw [← twice]
    exact Cursor.positionAt_append (p.past t) u v
  · rw [whole, total]
    exact Cursor.positionAt_append p (t ++ u) v
  · rw [← twice] at far ⊢
    exact Checked.past_append far v
  · rw [whole, total]
    exact Checked.past_append far v

/-! ## Cursors that know their position only -/

namespace Cursor

variable {source : List Char} {c d : Cursor}

/-- The cursor at a position of a template. What it has still to read is cut out of the template. -/
def ofPosition (source : List Char) (p : Position) : Except Fault Cursor :=
  (Text.cutFrom source p.offset).map fun rest => ⟨p, rest⟩

theorem ofPosition_of_reaches (h : (ofText source).Reaches c) :
    ofPosition source c.position = .ok c := by
  rw [ofPosition, cutFrom_of_reaches h]
  rfl

/-- Bytes counted from a cursor are counted from the start of the template. -/
theorem positionAt_of_reaches (h : (ofText source).Reaches c) (n : Nat) :
    c.positionAt n = (ofText source).positionAt (c.position.offset + n) := by
  obtain ⟨s, whole, position, offset⟩ := h.exists_before
  have taken : Text.takeBytes? (Text.byteLength s + n) source =
      (Text.takeBytes? n c.rest).map (s ++ ·) := by
    rw [whole]
    exact Text.takeBytes?_append s c.rest n
  rw [offset]
  simp only [positionAt, moveTo?, ofText, taken]
  cases found : Text.takeBytes? n c.rest with
  | none => rfl
  | some t =>
      obtain ⟨starts, -⟩ := Text.takeBytes?_eq_some found
      have passed : source.take (s ++ t).length = s ++ t := by
        obtain ⟨rest, after⟩ := starts
        rw [whole, ← after, ← List.append_assoc, List.take_left]
      have ahead : c.rest.take t.length = t := (List.prefix_iff_eq_take.mp starts).symm
      change Except.ok (c.position.past (c.rest.take t.length)) =
        .ok (Position.start.past (source.take (s ++ t).length))
      rw [ahead, passed, position, Position.past_append]

theorem positionAhead_of_reaches (h : (ofText source).Reaches c) (n : Nat) :
    c.positionAhead n = (ofText source).positionAhead (c.position.offset + n) := by
  obtain ⟨s, whole, -, offset⟩ := h.exists_before
  have clamped : min (c.position.offset + n) (Text.byteLength source) =
      c.position.offset + min n (Text.byteLength c.rest) := by
    rw [whole, Text.byteLength_append, offset]
    omega
  rw [positionAhead, positionAt_of_reaches h, positionAhead, ofText, clamped]

theorem Reaches.of_advance {n : Nat} (h : c.advance n = .ok d) :
    c.Reaches d ∧ c.positionAt n = .ok d.position := by
  unfold advance at h
  split at h
  · cases h
  · split at h
    · next e moved =>
      cases h
      obtain ⟨t, -, rfl⟩ := Option.map_eq_some_iff.mp moved
      exact ⟨c.reaches_skip t.length, by rw [positionAt, moved]⟩
    · cases h

end Cursor

/-- A single step from the start of the template leads to this position, and to all that a cursor at
    it moves or looks to. -/
structure Position.IsDirect (source : List Char) (p : Position) (c : Cursor) : Prop where
  cursor : Cursor.ofPosition source p = .ok c
  here : (Cursor.ofText source).positionAt p.offset = .ok p
  bytewise : p.Fits → Checked.past .start source p.offset = .ok p
  advance : ∀ n d, c.advance n = .ok d →
    (Cursor.ofText source).positionAt (p.offset + n) = .ok d.position
  skipBlanks : (Cursor.ofText source).positionAt
    (p.offset + Text.byteLength (c.rest.takeWhile Text.isBlank)) = .ok c.skipBlanks.position
  positionAt : ∀ n, c.positionAt n = (Cursor.ofText source).positionAt (p.offset + n)
  positionAhead : ∀ n, c.positionAhead n = (Cursor.ofText source).positionAhead (p.offset + n)

theorem Cursor.isDirect_of_reaches {source : List Char} {c : Cursor}
    (h : (ofText source).Reaches c) : c.position.IsDirect source c where
  cursor := ofPosition_of_reaches h
  here := by
    rw [← Nat.add_zero c.position.offset, ← positionAt_of_reaches h]
    exact positionAt_append c.position [] c.rest
  bytewise fits := by
    obtain ⟨s, whole, position, offset⟩ := h.exists_before
    rw [offset, whole, position]
    exact Checked.past_append (position ▸ fits) c.rest
  advance n d moved := by
    rw [← positionAt_of_reaches h]
    exact (Reaches.of_advance moved).2
  skipBlanks := by
    rw [← positionAt_of_reaches h]
    have step := positionAt_append c.position (c.rest.takeWhile Text.isBlank)
      (c.rest.dropWhile Text.isBlank)
    rw [List.takeWhile_append_dropWhile] at step
    rw [step, Cursor.skipBlanks, skip, Text.take_length_takeWhile]
  positionAt := positionAt_of_reaches h
  positionAhead := positionAhead_of_reaches h

/-! ## Moves -/

/-- A way to go on from a position, over a number of bytes or over blanks. -/
structure Gait (ε : Type) where
  advance : Position → Nat → Except ε Position
  skipBlanks : Position → Except ε Position

namespace Cursor

/-- How cursors of the template go. -/
def gait (source : List Char) : Gait Fault where
  advance p n := do
    let c ← ofPosition source p
    return (← c.advance n).position
  skipBlanks p := do
    let c ← ofPosition source p
    return c.skipBlanks.position

theorem gait_advance (h : (ofText source).Reaches c) (n : Nat) :
    (gait source).advance c.position n = (c.advance n).map position := by
  simp only [gait, ofPosition_of_reaches h]
  change (c.advance n >>= fun d => pure d.position) = _
  cases c.advance n <;> rfl

theorem gait_skipBlanks (h : (ofText source).Reaches c) :
    (gait source).skipBlanks c.position = .ok c.skipBlanks.position := by
  simp only [gait, ofPosition_of_reaches h]
  rfl

end Cursor

namespace Scanner

/-- How scanners go, by bytes and in 32 bits. -/
def gait (source : List Char) : Gait Breach where
  advance p n := do
    let (_, s) ← (advance source n).run ⟨p, .empty⟩
    return s.position
  skipBlanks p := do
    let (_, s) ← (advanceBlanks source).run ⟨p, .empty⟩
    return s.position

variable {source : List Char} {c : Cursor}

theorem gait_advance_eq (h : c.Within source) (n : Nat) :
    (gait source).advance c.position n =
      Checked.ofFault ((Cursor.gait source).advance c.position n) := by
  rw [Cursor.gait_advance h.reaches]
  simp only [gait, advance_eq h]
  cases c.advance n <;> rfl

theorem gait_skipBlanks_eq (h : c.Within source) :
    (gait source).skipBlanks c.position =
      Checked.ofFault ((Cursor.gait source).skipBlanks c.position) := by
  rw [Cursor.gait_skipBlanks h.reaches]
  simp only [gait, advanceBlanks_run h]
  rfl

/-- What a scanner at a position sees ahead is what is to be seen from the start. -/
structure SeesDirectly (source : List Char) (p : Position) : Prop where
  positionAt : ∀ n s, (positionAt source p n).run s =
    (Checked.ofFault ((Cursor.ofText source).positionAt (p.offset + n))).map (·, s)
  positionAhead : ∀ n log, (positionAhead source n).run ⟨p, log⟩ =
    (Checked.ofFault ((Cursor.ofText source).positionAhead (p.offset + n))).map (·, ⟨p, log⟩)

theorem seesDirectly (h : c.Within source) : SeesDirectly source c.position where
  positionAt n s := by
    rw [positionAt_eq h, ← Cursor.positionAt_of_reaches h.reaches]
    cases c.positionAt n <;> rfl
  positionAhead n log := by
    rw [← Cursor.positionAhead_of_reaches h.reaches, Cursor.positionAhead, positionAhead,
      StateT.run_bind, rest_run h, pure_bind]
    change (positionAt source c.position _).run _ = _
    rw [positionAt_eq h]
    cases c.positionAt _ <;> rfl

end Scanner

/-- What is done with a cursor that moves. -/
inductive Move where
  /-- It goes over a number of bytes. -/
  | advance (bytes : Nat)
  /-- It goes over the blanks that follow. -/
  | skipBlanks
  /-- Its position is noted. -/
  | capture
  /-- It is set to a position noted before, the first one being 0. -/
  | reset (i : Nat)
  deriving DecidableEq, Repr

/-- Where a moved cursor is, and the positions that were noted. -/
structure Trail where
  position : Position
  captured : List Position
  deriving DecidableEq, Repr

namespace Trail

def start : Trail := ⟨.start, []⟩

def positions (t : Trail) : List Position :=
  t.position :: t.captured

/-- Makes one move. -/
def move {ε : Type} (g : Gait ε) (t : Trail) : Move → Except ε Trail
  | .advance n => (g.advance t.position n).map fun p => { t with position := p }
  | .skipBlanks => (g.skipBlanks t.position).map fun p => { t with position := p }
  | .capture => .ok { t with captured := t.captured ++ [t.position] }
  | .reset i => .ok { t with position := t.captured.getD i t.position }

/-- The trail of moves made one after the other from the start of a template. -/
def ofMoves {ε : Type} (g : Gait ε) (moves : List Move) : Except ε Trail :=
  moves.foldlM (move g) start

variable {source : List Char} {t u : Trail}

/-- All positions are those of cursors of the template. -/
def Placed (source : List Char) (t : Trail) : Prop :=
  ∀ p ∈ t.positions, ∃ c, (Cursor.ofText source).Reaches c ∧ c.position = p

theorem placed_start (source : List Char) : start.Placed source := by
  intro p hp
  cases List.mem_singleton.mp hp
  exact ⟨_, .refl _, rfl⟩

theorem Placed.set (h : t.Placed source) {c : Cursor} (k : (Cursor.ofText source).Reaches c) :
    { t with position := c.position }.Placed source :=
  List.forall_mem_cons.mpr ⟨⟨c, k, rfl⟩, (List.forall_mem_cons.mp h).2⟩

/-- A move leads from cursors of the template to cursors of it. -/
theorem Placed.move (h : t.Placed source) {m : Move}
    (moved : t.move (Cursor.gait source) m = .ok u) : u.Placed source := by
  obtain ⟨here, noted⟩ := List.forall_mem_cons.mp h
  obtain ⟨c, reaches, place⟩ := here
  cases m with
  | advance n =>
      rw [Trail.move, ← place, Cursor.gait_advance reaches] at moved
      cases step : c.advance n with
      | error fault =>
          rw [step] at moved
          cases moved
      | ok d =>
          rw [step] at moved
          cases moved
          exact h.set (reaches.trans (Cursor.Reaches.of_advance step).1)
  | skipBlanks =>
      rw [Trail.move, ← place, Cursor.gait_skipBlanks reaches] at moved
      cases moved
      exact h.set (reaches.trans c.reaches_skipBlanks)
  | capture =>
      cases moved
      refine List.forall_mem_cons.mpr ⟨⟨c, reaches, place⟩, fun p hp => ?_⟩
      rcases List.mem_append.mp hp with before | new
      · exact noted p before
      · cases List.mem_singleton.mp new
        exact ⟨c, reaches, place⟩
  | reset i =>
      cases moved
      refine List.forall_mem_cons.mpr ⟨?_, noted⟩
      dsimp only
      rw [List.getD_eq_getElem?_getD]
      cases found : t.captured[i]? with
      | none => exact ⟨c, reaches, place⟩
      | some p => exact noted p (List.mem_of_getElem? found)

theorem Placed.foldlM (h : t.Placed source) {moves : List Move}
    (moved : moves.foldlM (Trail.move (Cursor.gait source)) t = .ok u) : u.Placed source := by
  induction moves generalizing t with
  | nil =>
      cases moved
      exact h
  | cons m moves ih =>
      rw [List.foldlM_cons] at moved
      cases first : t.move (Cursor.gait source) m with
      | error fault =>
          rw [first] at moved
          cases moved
      | ok v =>
          rw [first] at moved
          exact ih (h.move first) moved

/-- A scanner makes a move where a cursor does, and goes wrong where a cursor does. -/
theorem move_scanner (small : Text.byteLength source ≤ UInt32.size - 2) (h : t.Placed source)
    (m : Move) :
    t.move (Scanner.gait source) m = Checked.ofFault (t.move (Cursor.gait source) m) := by
  obtain ⟨c, reaches, place⟩ := h t.position List.mem_cons_self
  have within : c.Within source := ⟨reaches, small⟩
  cases m with
  | advance n =>
      rw [move, move, ← place, Scanner.gait_advance_eq within]
      cases (Cursor.gait source).advance c.position n <;> rfl
  | skipBlanks =>
      rw [move, move, ← place, Scanner.gait_skipBlanks_eq within]
      cases (Cursor.gait source).skipBlanks c.position <;> rfl
  | capture | reset => rfl

theorem foldlM_scanner (small : Text.byteLength source ≤ UInt32.size - 2) (h : t.Placed source)
    (moves : List Move) :
    moves.foldlM (move (Scanner.gait source)) t =
      Checked.ofFault (moves.foldlM (move (Cursor.gait source)) t) := by
  induction moves generalizing t with
  | nil => rfl
  | cons m moves ih =>
      simp only [List.foldlM_cons, move_scanner small h]
      cases moved : t.move (Cursor.gait source) m with
      | error fault => rfl
      | ok u => exact ih (h.move moved)

end Trail

/-- Positions do not depend on the way. Two steps over a text lead to the position that one step over
    both parts leads to. So wherever a cursor of the template was moved and set back to, a single step
    from the start of the template leads to its position, to those it noted and to those that are
    counted from them; and counting bytes in 32 bits leads to the same ones, if the template has room
    for them. -/
theorem positions_direct (source : List Char) :
    (∀ p a b, Text.IsBoundary source a → Text.IsBoundary source (a + b) →
      ∃ q r rest, Text.cutFrom source a = .ok rest ∧
        (Cursor.mk p source).positionAt a = .ok q ∧ (Cursor.mk q rest).positionAt b = .ok r ∧
        (Cursor.mk p source).positionAt (a + b) = .ok r ∧
        (q.Fits → r.Fits → Checked.past p source a = .ok q ∧ Checked.past q rest b = .ok r ∧
          Checked.past p source (a + b) = .ok r)) ∧
    (∀ moves t, Trail.ofMoves (Cursor.gait source) moves = .ok t →
      ∀ p ∈ t.positions, ∃ c, p.IsDirect source c) ∧
    (Text.byteLength source ≤ UInt32.size - 2 → ∀ moves,
      Trail.ofMoves (Scanner.gait source) moves =
        Checked.ofFault (Trail.ofMoves (Cursor.gait source) moves) ∧
      ∀ t, Trail.ofMoves (Cursor.gait source) moves = .ok t →
        ∀ p ∈ t.positions, Scanner.SeesDirectly source p) := by
  have placed {moves t} (moved : Trail.ofMoves (Cursor.gait source) moves = .ok t) :
      t.Placed source := (Trail.placed_start source).foldlM moved
  refine ⟨fun p a b => positionAt_additive source p, fun moves t moved p hp => ?_,
    fun small moves => ⟨?_, fun t moved p hp => ?_⟩⟩
  · obtain ⟨c, reaches, rfl⟩ := placed moved p hp
    exact ⟨c, Cursor.isDirect_of_reaches reaches⟩
  · exact Trail.foldlM_scanner small (Trail.placed_start source) moves
  · obtain ⟨c, reaches, rfl⟩ := placed moved p hp
    exact Scanner.seesDirectly ⟨reaches, small⟩

/-- A cursor that goes over a character of two bytes and a line break and back to before it, and two
    steps from a position that is not the start. -/
theorem positions_direct_reset :
    let source := "é\n b".toList
    let moves := [.advance 2, .capture, .advance 1, .skipBlanks, .capture, .reset 0, .advance 1]
    (∃ t, Trail.ofMoves (Cursor.gait source) moves = .ok t ∧
      Trail.ofMoves (Scanner.gait source) moves = .ok t ∧
      t.positions = [⟨3, 2, 1⟩, ⟨2, 1, 2⟩, ⟨4, 2, 2⟩] ∧
      ∀ p ∈ t.positions, (∃ c, p.IsDirect source c) ∧ Scanner.SeesDirectly source p) ∧
    Text.IsBoundary source 2 ∧ Text.IsBoundary source (2 + 2) ∧
    ∃ q r rest, Text.cutFrom source 2 = .ok rest ∧
      Checked.past ⟨7, 3, 5⟩ source 2 = .ok q ∧ Checked.past q rest 2 = .ok r ∧
      Checked.past ⟨7, 3, 5⟩ source (2 + 2) = .ok r ∧ r = ⟨11, 4, 2⟩ := by
  intro source moves
  obtain ⟨additive, direct, bytewise⟩ := positions_direct source
  have first : Text.IsBoundary source 2 := ⟨"é".toList, by decide, rfl⟩
  have second : Text.IsBoundary source (2 + 2) := ⟨"é\n ".toList, by decide, rfl⟩
  have moved : Trail.ofMoves (Cursor.gait source) moves =
      .ok ⟨⟨3, 2, 1⟩, [⟨2, 1, 2⟩, ⟨4, 2, 2⟩]⟩ := rfl
  obtain ⟨same, sees⟩ := bytewise (by decide) moves
  refine ⟨⟨_, moved, ?_, rfl, fun p hp => ⟨direct moves _ moved p hp, sees _ moved p hp⟩⟩,
    first, second, ?_⟩
  · rw [same, moved]
    rfl
  · obtain ⟨q, r, rest, cut, near, -, far, fits⟩ := additive ⟨7, 3, 5⟩ 2 2 first second
    obtain rfl : ⟨9, 3, 6⟩ = q := Except.ok.inj near
    obtain rfl : ⟨11, 4, 2⟩ = r := Except.ok.inj far
    obtain ⟨one, two, both⟩ := fits ⟨by decide, by decide, by decide⟩
      ⟨by decide, by decide, by decide⟩
    exact ⟨_, _, rest, cut, one, two, both, rfl⟩

end Stencil
