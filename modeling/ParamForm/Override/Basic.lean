import ParamForm.Parameter.Basic

/-!
# Overrides

What an operator writes to change one parameter of a derived tree. Only the key is required; every
other field that is set replaces the derived one, and the list under it changes the sub-parameters.
-/

namespace ParamForm

/-- The validation fields that an override sets. -/
structure ValidationPatch where
  required : Option Bool
  constraints : Constraints
  deriving Inhabited

/-- The validation with every field that a patch sets replaced. -/
def Validation.patched (base : Validation) (patch : ValidationPatch) : Validation where
  required := patch.required.getD base.required
  constraints := base.constraints.patched patch.constraints

/-- An override of the parameter `jsonKey`. -/
structure Override where
  jsonKey : String
  label : Option String := none
  description : Option String := none
  uiType : Option String := none
  validate : Option ValidationPatch := none
  conditions : Option (List Rule) := none
  sort : Option Number := none
  subParameters : Option (List Override) := none
  disable : Option Bool := none
  style : Option Style := none
  subParameterGroupOption : Option (List Group) := none
  additional : Option Bool := none
  deriving Inhabited

/-- A parameter's data with every field that an override sets replaced. -/
def ParameterInfo.patched (base : ParameterInfo) (o : Override) : ParameterInfo :=
  { base with
    label := o.label.getD base.label
    description := o.description <|> base.description
    uiType := (o.uiType.map Widget.tag).getD base.uiType
    conditions := o.conditions.getD base.conditions
    sort := o.sort.getD base.sort
    disable := o.disable <|> base.disable
    style := o.style <|> base.style
    additional := o.additional <|> base.additional
    subParameterGroupOption := o.subParameterGroupOption <|> base.subParameterGroupOption
    validate := (o.validate.map base.validate.patched).getD base.validate }

end ParamForm
