import ParamForm.Condition.Rule
import ParamForm.Schema.Widget

/-!
# Parameters

The tree that a form is drawn from. A parameter's own data (`ParameterInfo`) is kept apart from the
two places where its tree goes on: the list of its sub-parameters, and for maps the parameter that
describes the values of further keys.
-/

namespace ParamForm

/-- One of the options of a select. -/
structure Choice where
  label : String
  value : Value
  deriving Inhabited

/-- What a value has to satisfy, apart from being required. -/
structure Constraints where
  enum : Option (List Value) := none
  options : Option (List Choice) := none
  pattern : Option String := none
  min : Option Number := none
  max : Option Number := none
  minLength : Option Number := none
  maxLength : Option Number := none
  defaultValue : Option Value := none
  immutable : Option Bool := none
  deriving Inhabited

/-- The constraints with every field that `patch` sets replaced. -/
def Constraints.patched (base patch : Constraints) : Constraints where
  enum := patch.enum <|> base.enum
  options := patch.options <|> base.options
  pattern := patch.pattern <|> base.pattern
  min := patch.min <|> base.min
  max := patch.max <|> base.max
  minLength := patch.minLength <|> base.minLength
  maxLength := patch.maxLength <|> base.maxLength
  defaultValue := patch.defaultValue <|> base.defaultValue
  immutable := patch.immutable <|> base.immutable

/-- What the value of a parameter has to satisfy. -/
structure Validation where
  required : Bool
  constraints : Constraints
  deriving Inhabited

/-- How a parameter is laid out. -/
structure Style where
  colSpan : Option Number
  deriving Inhabited

/-- A heading over some of the sub-parameters. -/
structure Group where
  label : String
  keys : List String
  deriving Inhabited

/-- A parameter's own data. `others` are fields that only travel along. -/
structure ParameterInfo where
  jsonKey : String
  label : String
  description : Option String
  uiType : Widget
  kind : Kind
  validate : Validation
  conditions : List Rule
  sort : Number
  disable : Option Bool
  style : Option Style
  subParameterGroupOption : Option (List Group)
  additional : Option Bool
  others : Fields
  deriving Inhabited

/-- A parameter with its sub-parameters, and the parameter of the values under further keys. -/
structure Parameter where
  info : ParameterInfo
  subParameters : Option (List Parameter)
  additionalParameter : Option Parameter
  deriving Inhabited

namespace Parameter

/-- The dot-delimited path from the root that a parameter is known by. -/
abbrev jsonKey (p : Parameter) : String := p.info.jsonKey

/-- The structural kind of a parameter. -/
abbrev kind (p : Parameter) : Kind := p.info.kind

/-- Whether a parameter has to be filled in. -/
abbrev required (p : Parameter) : Bool := p.info.validate.required

/-- The sub-parameters, none if there is no list of them. -/
def children (p : Parameter) : List Parameter :=
  p.subParameters.getD []

/-- The number of sub-parameters. -/
def childCount (p : Parameter) : Nat :=
  p.children.length

mutual

/-- Whether a parameter can be copied, which it cannot with a function as a widget at or below it.
-/
def isCopyable : Parameter → Bool
  | ⟨info, subs, extra⟩ => info.uiType.isCopyable && optionsCopyable subs && extraCopyable extra

/-- Whether all parameters of a list can be copied. -/
def allCopyable : List Parameter → Bool
  | [] => true
  | p :: ps => isCopyable p && allCopyable ps

/-- Whether sub-parameters can be copied, if there are any. -/
def optionsCopyable : Option (List Parameter) → Bool
  | none => true
  | some ps => allCopyable ps

/-- Whether a value parameter can be copied, if there is one. -/
def extraCopyable : Option Parameter → Bool
  | none => true
  | some p => isCopyable p

end

end Parameter

end ParamForm
