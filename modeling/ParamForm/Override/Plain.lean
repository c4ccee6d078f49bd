import ParamForm.Override.Basic

/-!
# Overrides as plain values

The record that an override is written as. Fields come in the order of their declaration, and a
field that is not set is left out.
-/

namespace ParamForm

/-- A field of a record, if it is set. -/
def Fields.part {α : Type} (name : String) (plain : α → Value) : Option α → Fields
  | some a => [(name, plain a)]
  | none => []

open Fields

/-- A rule as an object. -/
def Rule.toValue (rule : Rule) : Value :=
  .record ([("jsonKey", .text rule.jsonKey)]
    ++ part "operator" (fun o : Operator => .text o.name) rule.operator
    ++ [("value", rule.value)]
    ++ part "action" (fun a : Action => .text a.name) rule.action)

/-- An option as an object. -/
def Choice.toValue (c : Choice) : Value :=
  .record [("label", .text c.label), ("value", c.value)]

/-- The constraints that are set, as fields. -/
def Constraints.toFields (c : Constraints) : Fields :=
  part "enum" .list c.enum
    ++ part "options" (fun cs : List Choice => .list (cs.map Choice.toValue)) c.options
    ++ part "pattern" .text c.pattern
    ++ part "min" .number c.min
    ++ part "max" .number c.max
    ++ part "minLength" .number c.minLength
    ++ part "maxLength" .number c.maxLength
    ++ part "defaultValue" id c.defaultValue
    ++ part "immutable" .bool c.immutable

/-- The validation that an override sets, as an object. -/
def ValidationPatch.toValue (v : ValidationPatch) : Value :=
  .record (part "required" .bool v.required ++ v.constraints.toFields)

/-- The validation of a parameter, as an object. -/
def Validation.toValue (v : Validation) : Value :=
  .record (("required", .bool v.required) :: v.constraints.toFields)

/-- A style as an object. -/
def Style.toValue (s : Style) : Value :=
  .record (part "colSpan" .number s.colSpan)

/-- A group as an object. -/
def Group.toValue (g : Group) : Value :=
  .record [("label", .text g.label), ("keys", .list (g.keys.map .text))]

namespace Override

mutual

/-- An override as an object, with the fields that are set. -/
def toValue : Override → Value
  | ⟨jsonKey, label, description, uiType, validate, conditions, sort, subParameters, disable,
      style, subParameterGroupOption, additional⟩ =>
    .record ([("jsonKey", .text jsonKey)]
      ++ part "label" .text label
      ++ part "description" .text description
      ++ part "uiType" .text uiType
      ++ part "validate" ValidationPatch.toValue validate
      ++ part "conditions" (fun rules : List Rule => .list (rules.map Rule.toValue)) conditions
      ++ part "sort" .number sort
      ++ subFields subParameters
      ++ part "disable" .bool disable
      ++ part "style" Style.toValue style
      ++ part "subParameterGroupOption"
          (fun gs : List Group => .list (gs.map Group.toValue)) subParameterGroupOption
      ++ part "additional" .bool additional)

/-- The field of the sub-parameters, if there are any. -/
def subFields : Option (List Override) → Fields
  | none => []
  | some os => [("subParameters", .list (toValues os))]

/-- Overrides as objects. -/
def toValues : List Override → List Value
  | [] => []
  | o :: os => toValue o :: toValues os

end

end Override

end ParamForm
