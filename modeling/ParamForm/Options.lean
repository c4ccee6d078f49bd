import ParamForm.Failure
import ParamForm.Number.Literal
import ParamForm.Text.Blank
import ParamForm.Text.Case
import ParamForm.Value.Basic

/-!
# Options

The options of a render: their defaults, their check (`Options.resolve`) and their reading from an
environment (`Options.ofEnvironment`).
-/

namespace ParamForm

/-- What an engine is configured with: the sort number of a parameter without one, and whether debug
lines are logged. -/
structure Options where
  defaultSort : Number
  debug : Bool
  deriving DecidableEq, Inhabited

namespace Options

/-- The options of an engine that is given none. -/
def defaults : Options := ⟨.whole 100, false⟩

/-- What is wrong with a number that has to be a nonnegative integer, after `name`. -/
def defaultSortIssues : Value → List Issue
  | .number x =>
    let issue (message : String) : Issue := ⟨[.field "defaultSort"], message⟩
    if x.isNan then [issue "defaultSort must be a number"]
    else
      (if x.isInteger then [] else [issue "defaultSort must be an integer"])
        ++ (if x.isNegative then [issue "defaultSort must be non-negative"] else [])
  | _ => [⟨[.field "defaultSort"], "defaultSort must be a number"⟩]

/-- What is wrong with the value that is given for the debug flag. -/
def debugIssues : Value → List Issue
  | .bool _ => []
  | _ => [⟨[.field "debug"], "debug must be a boolean"⟩]

/-- Names of fields that no option has. -/
def unknownIssues (names : List String) : List Issue :=
  if names.isEmpty then []
  else
    let quoted := names.map fun name => "'" ++ name ++ "'"
    [⟨[], "Unrecognized key(s) in object: " ++ ", ".intercalate quoted⟩]

/-- The options of a record of fields. A field that holds nothing counts as missing, and a missing
one takes its default. -/
def resolve (fields : Fields) : Except Failure Options :=
  let given := fields.filter fun f => !f.2.isAbsent
  let defaultSort := (Fields.get? given "defaultSort").getD (.number defaults.defaultSort)
  let debug := (Fields.get? given "debug").getD (.bool defaults.debug)
  let unknown := (given.map (·.1)).filter fun name => name ≠ "defaultSort" ∧ name ≠ "debug"
  match defaultSortIssues defaultSort ++ debugIssues debug ++ unknownIssues unknown,
    defaultSort, debug with
  | [], .number x, .bool b => .ok ⟨x, b⟩
  | issues, _, _ => .error (.options issues)

/-- The words that switch a flag on. -/
def trueWords : List String := ["1", "true", "yes", "on"]

/-- The words that switch a flag off. -/
def falseWords : List String := ["0", "false", "no", "off"]

/-- The environment variable of the default sort number. -/
def sortVariable : String := "UI_SCHEMA_DEFAULT_SORT"

/-- The environment variable of the debug flag. -/
def debugVariable : String := "UI_SCHEMA_DEBUG"

/-- The numbering base in an environment, if it is set to more than blanks. -/
def sortOf (environment : Fields) : Except Failure Fields :=
  let word := Text.trim (((Fields.get environment sortVariable).asText?).getD "")
  if word.isEmpty then .ok []
  else match Number.ofLiteral? word.toList with
    | some x => .ok [("defaultSort", .number x)]
    | none => .error (.options
        [⟨[.field sortVariable], "expected a number, received \"" ++ word ++ "\""⟩])

/-- The debug flag in an environment, if it is set to more than blanks. -/
def debugOf (environment : Fields) : Except Failure Fields :=
  let word := Text.lower (Text.trim (((Fields.get environment debugVariable).asText?).getD ""))
  if word.isEmpty then .ok []
  else if trueWords.contains word then .ok [("debug", .bool true)]
  else if falseWords.contains word then .ok [("debug", .bool false)]
  else .error (.options
    [⟨[.field debugVariable], "expected a boolean flag, received \"" ++ word ++ "\""⟩])

/-- The options that the environment asks for. The first variable that cannot be read stops it. -/
def ofEnvironment (environment : Fields) : Except Failure Options := do
  let defaultSort ← sortOf environment
  let debug ← debugOf environment
  resolve (defaultSort ++ debug)

end Options

end ParamForm
