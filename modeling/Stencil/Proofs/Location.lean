import Stencil.Parse
import Stencil.Proofs.Cursor

/-! # Faithful locations

A location repeats what its template already says: its offsets lie between characters, its lines
and columns follow from its offsets, and its text is the part of the template in between. A
location that says nothing else is faithful to the template.
-/

namespace Stencil

namespace Position

/-- The position after the text `before`: its bytes, its line breaks, and the characters since the
    last of them. -/
def canonical (before : List Char) : Position where
  offset := Text.byteLength before
  line := 1 + before.count '\n'
  column := 1 + (before.reverse.takeWhile (· != '\n')).length

/-- The position at a byte offset of a template, if the offset lies between two characters. -/
def atOffset? (source : List Char) (offset : Nat) : Option Position :=
  (Text.takeBytes? offset source).map canonical

theorem length_lt_of_lastLine? {s tail : List Char} (h : lastLine? s = some tail) :
    tail.length < s.length := by
  induction s with
  | nil => cases h
  | cons c s ih =>
      rw [lastLine?] at h
      cases last : lastLine? s with
      | some t =>
          rw [last] at h
          cases h
          exact Nat.lt_succ_of_lt (ih last)
      | none =>
          simp only [last] at h
          split at h
          · cases h
            exact Nat.lt_succ_self _
          · cases h

/-- The characters since the last line break, counted from the end and from the start. -/
theorem length_lastLine (s : List Char) :
    (s.reverse.takeWhile (· != '\n')).length = (lastLine? s).elim s.length List.length := by
  induction s with
  | nil => rfl
  | cons c s ih =>
      rw [List.reverse_cons, List.takeWhile_append, lastLine?]
      cases last : lastLine? s with
      | some tail =>
          have short := length_lt_of_lastLine? last
          rw [last, Option.elim_some] at ih
          rw [if_neg (by rw [ih, List.length_reverse]; omega), ih]
          rfl
      | none =>
          rw [last, Option.elim_none] at ih
          rw [if_pos (by rw [ih, List.length_reverse])]
          by_cases h : c = '\n'
          · simp [h]
          · simp [h]

theorem past_start (s : List Char) : start.past s = canonical s := by
  simp only [past, start, canonical, length_lastLine, Nat.zero_add, mk.injEq, true_and]
  cases lastLine? s with
  | none => rfl
  | some tail => exact Nat.add_comm _ _

end Position

/-- What a location of the template `source` has to be. -/
structure Location.Faithful (source : List Char) (l : Location) : Prop where
  ordered : l.start.offset ≤ l.stop.offset
  start : Position.atOffset? source l.start.offset = some l.start
  stop : Position.atOffset? source l.stop.offset = some l.stop
  source : l.source = Text.sliceBytes source l.start.offset l.stop.offset

namespace Cursor

/-- A cursor of a template stands at the canonical position of its offset. -/
theorem atOffset?_of_reaches {source : List Char} {c : Cursor} (h : (ofText source).Reaches c) :
    Position.atOffset? source c.position.offset = some c.position := by
  obtain ⟨s, rest, position, -⟩ := h.exists_before
  rw [Position.past_start] at position
  rw [position, rest]
  change (Text.takeBytes? (Text.byteLength s) (s ++ c.rest)).map _ = _
  rw [Text.takeBytes?_byteLength_append, Option.map_some]

/-- Cutting the template at the offsets of two cursors gives the text between them. -/
theorem sliceBytes_of_reaches {source : List Char} {c d : Cursor}
    (h : (ofText source).Reaches c) (k : c.Reaches d) :
    Text.sliceBytes source c.position.offset d.position.offset = c.textTo d := by
  obtain ⟨s, rest, -, first⟩ := h.exists_before
  obtain ⟨t, rest', position'⟩ := k
  have width : d.position.offset - c.position.offset = Text.byteLength t := by
    rw [position']
    exact Nat.add_sub_cancel_left _ _
  rw [textTo_of_append rest' position', Text.sliceBytes, width, first, rest,
    Text.dropBytes_byteLength_append, rest', Text.takeBytes_byteLength_append]

/-- What lies between two cursors of a template is a faithful location of it. -/
theorem locationTo_faithful {source : List Char} {c d : Cursor}
    (h : (ofText source).Reaches c) (k : c.Reaches d) : (c.locationTo d).Faithful source where
  ordered := k.offset_le
  start := atOffset?_of_reaches h
  stop := atOffset?_of_reaches (h.trans k)
  source := (sliceBytes_of_reaches h k).symm

end Cursor

/-! ## All locations of a template -/

namespace Property

/-- The locations of a property: its own, those of its name and value, and those of the parts of a
    directive. -/
def locations : Property → List Location
  | .attribute a => a.loc :: a.nameLoc :: a.value.toList.map (·.loc)
  | .directive d => d.loc :: (d.arg.toList ++ d.exp.toList ++ d.modifiers).map (·.loc)

end Property

namespace Node

mutual
/-- The locations of a node and of all that it holds. -/
def locations : Node → List Location
  | .element e children => e.loc :: e.props.flatMap Property.locations ++ listLocations children
  | .text t => [t.loc]
  | .comment c => [c.loc]
  | .interpolation i => [i.loc, i.content.loc]

/-- The locations of a list of nodes. -/
def listLocations : List Node → List Location
  | [] => []
  | node :: nodes => node.locations ++ listLocations nodes
end

end Node

/-- Every location that reading a template has produced: those of the tree and those of the
    reports. -/
def Template.locations (t : Template) : List Location :=
  t.root.loc :: Node.listLocations t.root.children ++ t.errors.filterMap (·.loc) ++
    t.warnings.filterMap (·.loc)

end Stencil
