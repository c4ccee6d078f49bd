import ParamForm.Failure
import ParamForm.Override.Basic
import ParamForm.Override.Checked
import ParamForm.Text.Blank

/-!
# The shape of overrides

The check that a value is a list of overrides (`Override.check`). Keys lose the blanks at their
ends, fields that no override has are dropped, and all issues are reported, in the order of the
fields as they are declared here.
-/

namespace ParamForm

open Value

/-- A key: a text that is more than blanks. -/
def checkKey : Value → Checked String
  | .absent => .fault "jsonKey is required"
  | .text s =>
    let key := Text.trim s
    if key.isEmpty then .fault "jsonKey must not be empty" else .ok key
  | v => v.mismatch "string"

/-- A check for operators. -/
def checkOperator (v : Value) : Checked Operator :=
  match v.asText?.bind Operator.ofName? with
  | some operator => .ok operator
  | none => .fault "operator must be one of ==, != or in"

/-- A check for actions. -/
def checkAction (v : Value) : Checked Action :=
  match v.asText?.bind Action.ofName? with
  | some action => .ok action
  | none => .fault "action must be enable or disable"

/-- A check for rules. -/
def checkRule : Value → Checked Rule :=
  checkRecord fun v =>
    Rule.mk <$> v.checkField "jsonKey" checkKey
      <*> v.checkPart "operator" checkOperator
      <*> v.checkField "value" checkJson
      <*> v.checkPart "action" checkAction

/-- A check for options. -/
def checkChoice : Value → Checked Choice :=
  checkRecord fun v =>
    Choice.mk <$> v.checkField "label" checkText <*> v.checkField "value" checkJson

/-- A check for the bounds of lengths: integers that are not negative. -/
def checkLength : Value → Checked Number :=
  checkNumber [(Number.isInteger, "Expected integer, received float"),
    (fun x => !x.isNegative, "Number must be greater than or equal to 0")]

/-- A check for the constraints in an object. What else the object holds is dropped. -/
def checkConstraints (v : Value) : Checked Constraints :=
  Constraints.mk <$> v.checkPart "enum" (checkList checkJson)
    <*> v.checkPart "options" (checkList checkChoice)
    <*> v.checkPart "pattern" checkText
    <*> v.checkPart "min" (checkNumber [])
    <*> v.checkPart "max" (checkNumber [])
    <*> v.checkPart "minLength" checkLength
    <*> v.checkPart "maxLength" checkLength
    <*> v.checkPart "defaultValue" checkJson
    <*> v.checkPart "immutable" checkBool

/-- A check for the validation that an override sets. -/
def checkValidation : Value → Checked ValidationPatch :=
  checkRecord fun v =>
    ValidationPatch.mk <$> v.checkPart "required" checkBool <*> checkConstraints v

/-- A check for sort numbers: integers that are not negative, with messages of their own. -/
def checkSort : Value → Checked Number :=
  checkNumber [(Number.isInteger, "sort must be an integer"),
    (fun x => !x.isNegative, "sort must be non-negative")]

/-- A check for the number of columns: a positive integer. -/
def checkSpan : Value → Checked Number :=
  checkNumber [(Number.isInteger, "Expected integer, received float"),
    (Number.isPositive, "Number must be greater than 0")]

/-- A check for styles. -/
def checkStyle : Value → Checked Style :=
  checkRecord fun v => (v.checkPart "colSpan" checkSpan).map Style.mk

/-- A check for groups of sub-parameters. -/
def checkGroup : Value → Checked Group :=
  checkRecord fun v =>
    Group.mk <$> v.checkField "label" checkText
      <*> v.checkMethod "keys" "array" (checkList checkText)

namespace Override

mutual

/-- An override with the overrides below it. -/
def checkOne (v : Value) : Checked Override :=
  if v.hasFields then
    let subParameters : Checked (Option (List Override)) :=
      match _h : v.member "subParameters" with
      | .absent => .ok none
      | .list vs => (checkAll 0 vs).map some
      | other => other.mismatch "array"
    Override.mk <$> v.checkField "jsonKey" checkKey
      <*> v.checkPart "label" checkText
      <*> v.checkPart "description" checkText
      <*> v.checkPart "uiType" checkText
      <*> v.checkPart "validate" checkValidation
      <*> v.checkPart "conditions" (checkList checkRule)
      <*> v.checkMethod "sort" "number" (checkOptional checkSort)
      <*> subParameters.under (.field "subParameters")
      <*> v.checkPart "disable" checkBool
      <*> v.checkPart "style" checkStyle
      <*> v.checkPart "subParameterGroupOption" (checkList checkGroup)
      <*> v.checkPart "additional" checkBool
  else v.mismatch "object"
termination_by weight v
decreasing_by
  all_goals exact itemsWeight_member _h

/-- The overrides of a list, counted from `i`. -/
def checkAll (i : Nat) : List Value → Checked (List Override)
  | [] => .ok []
  | v :: vs => List.cons <$> (checkOne v).under (.index i) <*> checkAll (i + 1) vs
termination_by vs => itemsWeight vs
decreasing_by
  · simp only [itemsWeight]
    omega
  · simp only [itemsWeight]
    omega

end

/-- A check for override documents: a list of overrides, none of which has to be there. -/
def check : Value → Checked (List Override)
  | .list vs => checkAll 0 vs
  | .absent => .fault "Required"
  | _ => .fault "override document must be a list of parameters"

/-- The overrides of a value, or a failure of the override document. -/
def ofValue (v : Value) : Except Failure (List Override) :=
  match check v with
  | .ok os => .ok os
  | .bad issues => .error (.document "override" issues)

end Override

end ParamForm
