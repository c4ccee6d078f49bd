import ParamForm.Issue

/-!
# Failures

Every way in which reading, rendering or storing can fail, with its message where the program gives
it one.
-/

namespace ParamForm

/-- The cause of a failure. The last three are errors of the runtime itself, whose texts are not
modelled: a `TypeError` where a value without a text was to be made one, or a `RangeError` where a
call has no end (`noText`), a `DataCloneError` where a tree with a function in it was to be copied
(`notCopyable`), and a `TypeError` where a text held several documents, of which the reader's error
has no line to report (`severalDocuments`). -/
inductive Failure where
  | document (documentKind : String) (issues : List Issue)
  | uiSchema (issues : List Issue)
  | options (issues : List Issue)
  | schemaNotFound (definitionType name : String)
  | noText
  | notCopyable
  | severalDocuments
  deriving Inhabited

namespace Failure

/-- The message of a failure; none is modelled for the errors of the runtime. -/
def message? : Failure → Option String
  | document documentKind issues =>
    some (Issue.report ("Invalid " ++ documentKind ++ " document") issues)
  | uiSchema issues => some (Issue.report "Invalid UI schema" issues)
  | options issues => some (Issue.report "Invalid engine configuration" issues)
  | schemaNotFound definitionType name =>
    some ("No parameter schema stored for " ++ definitionType ++ " definition \"" ++ name ++ "\"")
  | noText | notCopyable | severalDocuments => none

/-- The issues that a failure lists, if it lists any. -/
def issues? : Failure → Option (List Issue)
  | document _ issues => some issues
  | uiSchema issues => some issues
  | _ => none

end Failure

end ParamForm
