import ParamForm.Parameter.Basic
import ParamForm.Schema.Key
import ParamForm.Value.Json

/-!
# Visibility

Rules evaluated against the values that a form holds. A value is found by following the segments of
a key (`readValue`); lists and objects are compared by their JSON texts.
-/

namespace ParamForm

namespace Value

/-- The value that a path of names leads to, `absent` where it leads nowhere. -/
def follow (v : Value) (names : List String) : Value :=
  names.foldl member v

/-- The value under a key. -/
def readValue (values : Value) (key : String) : Value :=
  follow values (Key.split key)

/-- Whether a value is a list or an object, and so compared by its JSON text. -/
def isCompound : Value → Bool
  | .list _ => true
  | v => v.isObject

/-- Strict equality of values, except that of lists and objects: these are never equal here. -/
def sameScalar : Value → Value → Bool
  | .absent, .absent | .null, .null => true
  | .bool a, .bool b => a = b
  | .number x, .number y => x.same y
  | .text s, .text t => s = t
  | _, _ => false

/-- Whether the value of a form is the one that a rule expects: two lists or objects by their JSON
texts, all else by strict equality. -/
def matchesValue (actual expected : Value) : Bool :=
  if actual.isCompound && expected.isCompound then actual.json? = expected.json?
  else sameScalar actual expected

end Value

/-- Whether a run of characters occurs somewhere in a text. -/
def occursIn (run : List Char) : List Char → Bool
  | [] => run.isEmpty
  | c :: cs => run.isPrefixOf (c :: cs) || occursIn run cs

namespace Rule

/-- Whether a rule's test holds of the values of a form. Membership is that of a list, or of one
text in another. -/
def holds (rule : Rule) (values : Value) : Bool :=
  let actual := values.readValue rule.jsonKey
  match rule.operator.getD .equal with
  | .equal => actual.matchesValue rule.value
  | .notEqual => !actual.matchesValue rule.value
  | .isIn =>
    match rule.value, actual with
    | .list candidates, _ => candidates.any actual.matchesValue
    | .text s, .text t => occursIn t.toList s.toList
    | _, _ => false

/-- Whether a rule lets its parameter be shown. -/
def permits (rule : Rule) (values : Value) : Bool :=
  match rule.action.getD .enable with
  | .enable => rule.holds values
  | .disable => !rule.holds values

end Rule

/-- Whether a parameter with these conditions is shown: it is not disabled, and every rule permits
it. -/
def isVisible (disable : Option Bool) (conditions : List Rule) (values : Value) : Bool :=
  !disable.getD false && conditions.all (·.permits values)

/-- Whether a parameter is shown for the values of a form. -/
def Parameter.isVisible (p : Parameter) (values : Value) : Bool :=
  ParamForm.isVisible p.info.disable p.info.conditions values

end ParamForm
