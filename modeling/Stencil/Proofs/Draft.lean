import Stencil.Parse

/-! # Drafts

A draft is a tree of plain markup that does not say where anything stands. It can be printed as a
template, and it can be read off the tree of a template that holds nothing but plain markup.
-/

namespace Stencil

/-- A node of plain markup. -/
inductive Draft where
  | text (content : List Char)
  | element (tag : List Char) (attributes : List (List Char × List Char)) (children : List Draft)
  | comment (content : List Char)
  | interpolation (expression : List Char)

namespace Draft

def isText : Draft → Bool
  | .text _ => true
  | .element .. | .comment _ | .interpolation _ => false

/-! ## Printing -/

/-- An attribute with its value in quotes, after a space. -/
def printAttribute (a : List Char × List Char) : List Char :=
  ' ' :: a.1 ++ '=' :: '\x22' :: a.2 ++ ['\x22']

mutual
/-- The template that a draft stands for. -/
def print : Draft → List Char
  | .text content => content
  | .element tag attributes children =>
    '<' :: tag ++ attributes.flatMap printAttribute ++ '>' :: printAll children ++
      '<' :: '/' :: tag ++ ['>']
  | .comment content => "<!--".toList ++ content ++ "-->".toList
  | .interpolation expression => "\x7b\x7b ".toList ++ expression ++ " \x7d\x7d".toList

/-- The template that drafts next to each other stand for. -/
def printAll : List Draft → List Char
  | [] => []
  | d :: ds => d.print ++ printAll ds
end

mutual
/-- The number of elements that are open at a time. -/
def depth : Draft → Nat
  | .element _ _ children => listDepth children + 1
  | .text _ | .comment _ | .interpolation _ => 0

/-- The number of elements that are open at a time in a list of drafts. -/
def listDepth : List Draft → Nat
  | [] => 0
  | d :: ds => max d.depth (listDepth ds)
end

/-! ## Drafts that can be read back -/

/-- A name of ASCII letters in lower case. -/
def isName (s : List Char) : Bool :=
  !s.isEmpty && s.all Char.isLower

/-- A text that is not blank and that nothing but text can be found in. -/
def isPlainText (s : List Char) : Bool :=
  !Text.isBlankOnly s && s.all fun c => !(c == '<' || c == '&' || c == '\x7b')

/-- An attribute that keeps its value: `class` has its own notation, and references would be
    replaced. -/
def isPlainAttribute (a : List Char × List Char) : Bool :=
  isName a.1 && a.1 != "class".toList && a.2.all fun c => !(c == '\x22' || c == '&')

/-- The content of a comment that no mark can be found in. -/
def isPlainComment (s : List Char) : Bool :=
  s.all fun c => !(c == '-' || c == '>' || c == '!')

/-- An expression, not empty, without spaces around it that does not hold the closing delimiter. -/
def isPlainExpression (s : List Char) : Bool :=
  (s.head?.any fun c => !Text.isSpace c) && (s.getLast?.any fun c => !Text.isSpace c) &&
    s.all fun c => !(c == '\x7d' || c == '&')

mutual
/-- Names, texts, comments and expressions are plain, attributes are distinct, and no two texts
    stand next to each other. -/
def wellFormed : Draft → Bool
  | .text content => isPlainText content
  | .element tag attributes children =>
    isName tag && attributes.all isPlainAttribute && decide (attributes.map Prod.fst).Nodup &&
      listWellFormed children
  | .comment content => isPlainComment content
  | .interpolation expression => isPlainExpression expression

/-- All drafts of a list are well-formed, and no two texts stand next to each other. -/
def listWellFormed : List Draft → Bool
  | [] => true
  | d :: ds => d.wellFormed && !(d.isText && ds.head?.any isText) && listWellFormed ds
end

end Draft

/-! ## Drafts of trees -/

/-- The name and value of a plain attribute. -/
def Property.draft? : Property → Option (List Char × List Char)
  | .attribute a => a.value.map fun v => (a.name, v.content)
  | .directive _ => none

namespace Node

mutual
/-- What a node says, apart from places and from what its tag means. There is no draft of a
    directive, of an attribute without a value, of a solidus at the end of a start tag or of another
    namespace. -/
def draft? : Node → Option Draft
  | .element e children =>
    if e.isSelfClosing || e.ns != .html then none
    else
      match e.props.mapM Property.draft?, listDraft? children with
      | some attributes, some children => some (.element e.tag attributes children)
      | _, _ => none
  | .text t => some (.text t.content)
  | .comment c => some (.comment c.content)
  | .interpolation i =>
    if i.content.isStatic then none else some (.interpolation i.content.content)

/-- What the nodes of a list say. -/
def listDraft? : List Node → Option (List Draft)
  | [] => some []
  | node :: nodes =>
    match node.draft?, listDraft? nodes with
    | some d, some ds => some (d :: ds)
    | _, _ => none
end

theorem listDraft?_append {xs ys : List Node} {ds es : List Draft} (h : listDraft? xs = some ds)
    (k : listDraft? ys = some es) : listDraft? (xs ++ ys) = some (ds ++ es) := by
  induction xs generalizing ds with
  | nil =>
      cases h
      exact k
  | cons node nodes ih =>
      rw [listDraft?] at h
      split at h
      · next d es' here rest =>
        cases h
        rw [List.cons_append, listDraft?, here, ih rest]
        rfl
      · cases h

end Node

end Stencil
