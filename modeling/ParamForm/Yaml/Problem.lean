/-!
# Problems of a text

Why a text is not a document (`Reason`), and where: a problem names the place at which reading
stopped, by line and column.
-/

namespace ParamForm.Yaml

/-- The three sorts of nodes. -/
inductive NodeKind where
  | scalar
  | sequence
  | mapping
  deriving DecidableEq, Inhabited

/-- The spelling of a sort of nodes in messages. -/
def NodeKind.name : NodeKind → String
  | scalar => "scalar"
  | sequence => "sequence"
  | mapping => "mapping"

/-- The two sorts of quotes. -/
inductive QuoteStyle where
  | single
  | double
  deriving DecidableEq, Inhabited

/-- The spelling of a sort of quotes in messages. -/
def QuoteStyle.name : QuoteStyle → String
  | single => "single"
  | double => "double"

/-- What can be wrong with a text. -/
inductive Reason where
  -- characters
  | nullByte
  | lineBreakExpected
  | notPrintable
  | notJsonCharacter
  | tabInIndentation
  -- scalars
  | documentEndsInQuotes (style : QuoteStyle)
  | streamEndsInQuotes (style : QuoteStyle)
  | hexDigitExpected
  | unknownEscape
  | repeatedChomping
  | zeroIndentation
  | repeatedIndentation
  | missingIndentation
  -- tags, anchors and aliases
  | repeatedTag
  | streamEndsInTag
  | badHandle
  | markInSuffix
  | flowIndicatorInSuffix
  | badTagName (name : String)
  | malformedTagName (name : String)
  | undeclaredHandle (handle : String)
  | repeatedAnchor
  | emptyAnchor
  | emptyAlias
  | unknownAlias (name : String)
  | aliasWithProperties
  -- types
  | unknownTag (tag : String)
  | kindMismatch (tag : String) (expected : NodeKind) (found : Option NodeKind)
  | unresolved (tag : String)
  -- mappings
  | nestedListKey
  | badMergeSource
  | tooManySources
  | tooMuchMerged
  | duplicateKey
  -- collections
  | tooDeep
  | commaMissing
  | contentMissing
  | streamEndsInFlow
  | badEntryIndentation
  | keyMissing
  | blankMissing
  | colonMissing
  | multilineKey
  | badPairIndentation
  -- documents
  | emptyDirective
  | repeatedVersion
  | versionArguments
  | badVersion
  | unacceptableVersion
  | handleArguments
  | badDeclaredHandle
  | repeatedHandle (handle : String)
  | badHandleText
  | malformedHandleText (text : String)
  | directivesEndMissing
  | documentEndMissing
  deriving DecidableEq, Inhabited

namespace Reason

/-- The message of a reason. -/
def message : Reason → String
  | nullByte => "null byte is not allowed in input"
  | lineBreakExpected => "a line break is expected"
  | notPrintable => "the stream contains non-printable characters"
  | notJsonCharacter => "expected valid JSON character"
  | tabInIndentation => "tab characters must not be used in indentation"
  | documentEndsInQuotes style =>
    "unexpected end of the document within a " ++ style.name ++ " quoted scalar"
  | streamEndsInQuotes style =>
    "unexpected end of the stream within a " ++ style.name ++ " quoted scalar"
  | hexDigitExpected => "expected hexadecimal character"
  | unknownEscape => "unknown escape sequence"
  | repeatedChomping => "repeat of a chomping mode identifier"
  | zeroIndentation =>
    "bad explicit indentation width of a block scalar; it cannot be less than one"
  | repeatedIndentation => "repeat of an indentation width identifier"
  | missingIndentation => "missing indentation for block scalar"
  | repeatedTag => "duplication of a tag property"
  | streamEndsInTag => "unexpected end of the stream within a verbatim tag"
  | badHandle => "named tag handle cannot contain such characters"
  | markInSuffix => "tag suffix cannot contain exclamation marks"
  | flowIndicatorInSuffix => "tag suffix cannot contain flow indicator characters"
  | badTagName name => "tag name cannot contain such characters: " ++ name
  | malformedTagName name => "tag name is malformed: " ++ name
  | undeclaredHandle handle => "undeclared tag handle \"" ++ handle ++ "\""
  | repeatedAnchor => "duplication of an anchor property"
  | emptyAnchor => "name of an anchor node must contain at least one character"
  | emptyAlias => "name of an alias node must contain at least one character"
  | unknownAlias name => "unidentified alias \"" ++ name ++ "\""
  | aliasWithProperties => "alias node should not have any properties"
  | unknownTag tag => "unknown tag !<" ++ tag ++ ">"
  | kindMismatch tag expected found =>
    "unacceptable node kind for !<" ++ tag ++ "> tag; it should be \"" ++ expected.name
      ++ "\", not \"" ++ (found.map NodeKind.name).getD "null" ++ "\""
  | unresolved tag => "cannot resolve a node with !<" ++ tag ++ "> explicit tag"
  | nestedListKey => "nested arrays are not supported inside keys"
  | badMergeSource => "cannot merge mappings; the provided source object is unacceptable"
  | tooManySources => "abnormal merge sequence size"
  | tooMuchMerged => "merge keys exceeded maxTotalMergeKeys (10000)"
  | duplicateKey => "duplicated mapping key"
  | tooDeep => "nesting exceeded maxDepth (100)"
  | commaMissing => "missed comma between flow collection entries"
  | contentMissing => "expected the node content, but found ','"
  | streamEndsInFlow => "unexpected end of the stream within a flow collection"
  | badEntryIndentation => "bad indentation of a sequence entry"
  | keyMissing =>
    "incomplete explicit mapping pair; a key node is missed; or followed by a non-tabulated "
      ++ "empty line"
  | blankMissing =>
    "a whitespace character is expected after the key-value separator within a block mapping"
  | colonMissing => "can not read an implicit mapping pair; a colon is missed"
  | multilineKey =>
    "can not read a block mapping entry; a multiline key may not be an implicit key"
  | badPairIndentation => "bad indentation of a mapping entry"
  | emptyDirective => "directive name must not be less than one character in length"
  | repeatedVersion => "duplication of %YAML directive"
  | versionArguments => "YAML directive accepts exactly one argument"
  | badVersion => "ill-formed argument of the YAML directive"
  | unacceptableVersion => "unacceptable YAML version of the document"
  | handleArguments => "TAG directive accepts exactly two arguments"
  | badDeclaredHandle => "ill-formed tag handle (first argument) of the TAG directive"
  | repeatedHandle handle =>
    "there is a previously declared suffix for \"" ++ handle ++ "\" tag handle"
  | badHandleText => "ill-formed tag prefix (second argument) of the TAG directive"
  | malformedHandleText text => "tag prefix is malformed: " ++ text
  | directivesEndMissing => "directives end mark is expected"
  | documentEndMissing => "end of the stream or a document separator is expected"

end Reason

/-- A reason and a place. Lines count from one; columns count UTF-16 units from one, and one that
is counted from the start of a later line than its own may lie before it. -/
structure Problem where
  reason : Reason
  line : Nat
  column : Int
  deriving DecidableEq, Inhabited

/-- The line that reports a problem. -/
def Problem.text (p : Problem) : String :=
  p.reason.message ++ " (line " ++ toString p.line ++ ", column " ++ toString p.column ++ ")"

/-- Why reading a text gave no value: a problem, a value without a text where one was needed, or a
second document. -/
inductive Fault where
  | problem (p : Problem)
  | noText
  | severalDocuments
  deriving Inhabited

end ParamForm.Yaml
