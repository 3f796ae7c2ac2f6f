import Stencil.Options
import Stencil.Text.Blank

/-! # Finished sibling lists

What happens to a list of siblings once it is complete. Every decision looks at the list as it was
read: blank text is dropped or becomes a space, comments are dropped where they are not wanted.
After that, texts that have come to stand next to each other are joined.
-/

namespace Stencil.Siblings

/-- Blank text between nodes of these kinds carries no meaning when white space is condensed.
Between elements it does unless it has a line break. -/
def isRemovable (prev next : NodeKind) (content : List Char) : Bool :=
  match prev, next with
  | .comment, .comment => true
  | .comment, .element => true
  | .element, .comment => true
  | .element, .element => content.any fun c => c == '\n' || c == '\r'
  | _, _ => false

/-- What becomes of a text between two neighbours, `none` if it is dropped. -/
def settleText (o : Options) (inPre : Bool) (prev next : Option NodeKind) (t : TextNode) :
    Option TextNode :=
  if inPre then some { t with content := Text.unifyLineBreaks t.content }
  else if Text.isBlankOnly t.content then
    match prev, next with
    | some prev, some next =>
      if o.condenses && isRemovable prev next t.content then none
      else some { t with content := [' '] }
    | _, _ => none
  else if o.condenses then some { t with content := Text.condense t.content }
  else some t

/-- What becomes of a node between two neighbours. -/
def settleNode (o : Options) (inPre : Bool) (prev next : Option NodeKind) : Node → Option Node
  | .text t => (settleText o inPre prev next t).map .text
  | .comment c => if o.comments then some (.comment c) else none
  | node => some node

/-- What becomes of each node of a list; `prev` is the kind of the node before it. -/
def settleEach (o : Options) (inPre : Bool) (prev : Option NodeKind) :
    List Node → List (Option Node)
  | [] => []
  | node :: nodes =>
    settleNode o inPre prev (nodes.head?.map Node.kind) node ::
      settleEach o inPre (some node.kind) nodes

/-- Drops the line break that the first node starts with, if that is a text. -/
def dropFirstLineBreak : List (Option Node) → List (Option Node)
  | some (.text t) :: nodes =>
    some (.text { t with content := Text.dropLineBreak t.content }) :: nodes
  | nodes => nodes

/-- Joins two texts of a template that have come to stand next to each other. The source of the
result is what the template has from the start of the first to the end of the second. -/
def joinTexts (o : Options) (inPre : Bool) (source : List Char) (a b : TextNode) : TextNode :=
  let content := a.content ++ b.content
  { content := if o.condenses && !inPre then Text.condense content else content
    loc :=
      { start := a.loc.start
        stop := b.loc.stop
        source := Text.sliceBytes source a.loc.start.offset b.loc.stop.offset } }

/-- Puts a node before a list, joining it with the first node if both are texts. -/
def consJoining (o : Options) (inPre : Bool) (source : List Char) (node : Node)
    (nodes : List Node) : List Node :=
  match node, nodes with
  | .text a, .text b :: rest => .text (joinTexts o inPre source a b) :: rest
  | node, nodes => node :: nodes

/-- Settles a complete list of siblings from the template `source`. `inPre` tells whether white
space is kept around them, `preParent` whether their own parent is what keeps it: then a line break
right after its start tag is dropped. -/
def settle (o : Options) (source : List Char) (inPre preParent : Bool) (nodes : List Node) :
    List Node :=
  let settled := settleEach o inPre none nodes
  let trimmed := if inPre && preParent then dropFirstLineBreak settled else settled
  (trimmed.filterMap id).foldr (consJoining o inPre source) []

/-- Puts a node at the end of a list that is kept newest first, extending the last text if it ends
where the node starts. -/
def push (node : Node) (nodes : List Node) : List Node :=
  match node, nodes with
  | .text t, .text prev :: rest =>
    if prev.loc.stop.offset = t.loc.start.offset then
      .text
        { content := prev.content ++ t.content
          loc := ⟨prev.loc.start, t.loc.stop, prev.loc.source ++ t.loc.source⟩ } :: rest
    else .text t :: .text prev :: rest
  | node, nodes => node :: nodes

end Stencil.Siblings
