import Stencil.Position

/-! # Errors of a template

Reading a template never fails; what is wrong with it is reported as a list of errors, each a code
with the place it was noticed at.
-/

namespace Stencil

/-- What can be wrong with a template. -/
inductive ErrorCode where
  | abruptClosingOfEmptyComment
  | cdataInHtmlContent
  | duplicateAttribute
  | endTagWithAttributes
  | endTagWithTrailingSolidus
  | eofBeforeTagName
  | eofInCdata
  | eofInComment
  | eofInScriptHtmlCommentLikeText
  | eofInTag
  | incorrectlyClosedComment
  | incorrectlyOpenedComment
  | invalidFirstCharacterOfTagName
  | missingAttributeValue
  | missingEndTagName
  | missingWhitespaceBetweenAttributes
  | nestedComment
  | unexpectedCharacterInAttributeName
  | unexpectedCharacterInUnquotedAttributeValue
  | unexpectedEqualsSignBeforeAttributeName
  | unexpectedQuestionMarkInsteadOfTagName
  | unexpectedSolidusInTag
  | invalidEndTag
  | missingEndTag
  | missingInterpolationEnd
  | missingDirectiveName
  | missingDynamicDirectiveArgumentEnd
  | nestingTooDeep
  deriving DecidableEq, Repr

namespace ErrorCode

/-- All codes, in the order of their numbers. -/
def all : List ErrorCode :=
  [abruptClosingOfEmptyComment, cdataInHtmlContent, duplicateAttribute, endTagWithAttributes,
    endTagWithTrailingSolidus, eofBeforeTagName, eofInCdata, eofInComment,
    eofInScriptHtmlCommentLikeText, eofInTag, incorrectlyClosedComment, incorrectlyOpenedComment,
    invalidFirstCharacterOfTagName, missingAttributeValue, missingEndTagName,
    missingWhitespaceBetweenAttributes, nestedComment, unexpectedCharacterInAttributeName,
    unexpectedCharacterInUnquotedAttributeValue, unexpectedEqualsSignBeforeAttributeName,
    unexpectedQuestionMarkInsteadOfTagName, unexpectedSolidusInTag, invalidEndTag, missingEndTag,
    missingInterpolationEnd, missingDirectiveName, missingDynamicDirectiveArgumentEnd,
    nestingTooDeep]

/-- The number that identifies a code. The number 20 is not in use. -/
def number : ErrorCode → Nat
  | abruptClosingOfEmptyComment => 0
  | cdataInHtmlContent => 1
  | duplicateAttribute => 2
  | endTagWithAttributes => 3
  | endTagWithTrailingSolidus => 4
  | eofBeforeTagName => 5
  | eofInCdata => 6
  | eofInComment => 7
  | eofInScriptHtmlCommentLikeText => 8
  | eofInTag => 9
  | incorrectlyClosedComment => 10
  | incorrectlyOpenedComment => 11
  | invalidFirstCharacterOfTagName => 12
  | missingAttributeValue => 13
  | missingEndTagName => 14
  | missingWhitespaceBetweenAttributes => 15
  | nestedComment => 16
  | unexpectedCharacterInAttributeName => 17
  | unexpectedCharacterInUnquotedAttributeValue => 18
  | unexpectedEqualsSignBeforeAttributeName => 19
  | unexpectedQuestionMarkInsteadOfTagName => 21
  | unexpectedSolidusInTag => 22
  | invalidEndTag => 23
  | missingEndTag => 24
  | missingInterpolationEnd => 25
  | missingDirectiveName => 26
  | missingDynamicDirectiveArgumentEnd => 27
  | nestingTooDeep => 28

/-- The name that a code has in reports. -/
def name : ErrorCode → String
  | abruptClosingOfEmptyComment => "AbruptClosingOfEmptyComment"
  | cdataInHtmlContent => "CdataInHtmlContent"
  | duplicateAttribute => "DuplicateAttribute"
  | endTagWithAttributes => "EndTagWithAttributes"
  | endTagWithTrailingSolidus => "EndTagWithTrailingSolidus"
  | eofBeforeTagName => "EofBeforeTagName"
  | eofInCdata => "EofInCdata"
  | eofInComment => "EofInComment"
  | eofInScriptHtmlCommentLikeText => "EofInScriptHtmlCommentLikeText"
  | eofInTag => "EofInTag"
  | incorrectlyClosedComment => "IncorrectlyClosedComment"
  | incorrectlyOpenedComment => "IncorrectlyOpenedComment"
  | invalidFirstCharacterOfTagName => "InvalidFirstCharacterOfTagName"
  | missingAttributeValue => "MissingAttributeValue"
  | missingEndTagName => "MissingEndTagName"
  | missingWhitespaceBetweenAttributes => "MissingWhitespaceBetweenAttributes"
  | nestedComment => "NestedComment"
  | unexpectedCharacterInAttributeName => "UnexpectedCharacterInAttributeName"
  | unexpectedCharacterInUnquotedAttributeValue => "UnexpectedCharacterInUnquotedAttributeValue"
  | unexpectedEqualsSignBeforeAttributeName => "UnexpectedEqualsSignBeforeAttributeName"
  | unexpectedQuestionMarkInsteadOfTagName => "UnexpectedQuestionMarkInsteadOfTagName"
  | unexpectedSolidusInTag => "UnexpectedSolidusInTag"
  | invalidEndTag => "InvalidEndTag"
  | missingEndTag => "MissingEndTag"
  | missingInterpolationEnd => "MissingInterpolationEnd"
  | missingDirectiveName => "MissingDirectiveName"
  | missingDynamicDirectiveArgumentEnd => "MissingDynamicDirectiveArgumentEnd"
  | nestingTooDeep => "NestingTooDeep"

/-- What is wrong, in words. -/
def message : ErrorCode → String
  | abruptClosingOfEmptyComment => "Illegal comment."
  | cdataInHtmlContent => "CDATA section is allowed only in XML context."
  | duplicateAttribute => "Duplicate attribute."
  | endTagWithAttributes => "End tag cannot have attributes."
  | endTagWithTrailingSolidus => "Illegal '/' in tags."
  | eofBeforeTagName => "Unexpected EOF in tag."
  | eofInCdata => "Unexpected EOF in CDATA section."
  | eofInComment => "Unexpected EOF in comment."
  | eofInScriptHtmlCommentLikeText => "Unexpected EOF in script."
  | eofInTag => "Unexpected EOF in tag."
  | incorrectlyClosedComment => "Incorrectly closed comment."
  | incorrectlyOpenedComment => "Incorrectly opened comment."
  | invalidFirstCharacterOfTagName => "Illegal tag name. Use '&lt;' to print '<'."
  | missingAttributeValue => "Attribute value was expected."
  | missingEndTagName => "End tag name was expected."
  | missingWhitespaceBetweenAttributes => "Whitespace was expected."
  | nestedComment => "Unexpected '<!--' in comment."
  | unexpectedCharacterInAttributeName =>
    "Attribute name cannot contain U+0022 (\"), U+0027 ('), and U+003C (<)."
  | unexpectedCharacterInUnquotedAttributeValue =>
    "Unquoted attribute value cannot contain U+0022 (\"), U+0027 ('), U+003C (<), U+003D (=), " ++
      "and U+0060 (\x60)."
  | unexpectedEqualsSignBeforeAttributeName => "Attribute name cannot start with '='."
  | unexpectedQuestionMarkInsteadOfTagName => "'<?' is allowed only in XML context."
  | unexpectedSolidusInTag => "Illegal '/' in tags."
  | invalidEndTag => "Invalid end tag."
  | missingEndTag => "Element is missing end tag."
  | missingInterpolationEnd => "Interpolation end sign was not found."
  | missingDirectiveName => "Legal directive name was expected."
  | missingDynamicDirectiveArgumentEnd =>
    "End bracket for dynamic directive argument was not found. " ++
      "Note that dynamic directive argument cannot contain spaces."
  | nestingTooDeep => "Element nesting is too deep; its content is parsed as a sibling."

/-- The code of a given name. -/
def ofName? (s : String) : Option ErrorCode :=
  all.find? fun code => code.name == s

end ErrorCode

/-- An error of a template. -/
structure ParseError where
  code : ErrorCode
  loc : Option Location
  deriving DecidableEq, Repr

/-- The error `code`, noticed at a position. -/
def ParseError.at (code : ErrorCode) (p : Position) : ParseError :=
  ⟨code, some (.point p)⟩

end Stencil
