import ParamForm.Yaml.Graph

/-!
# What the check of overrides looks at

The check of a document of overrides looks into its values as far as the fields of overrides have
parts (`Override.view`). The fields that no override has, and those whose values have no parts, are
not looked into; the values of rules, options and defaults are looked into as a whole.
-/

namespace ParamForm.Override

/-- The places of a document of overrides that the check looks at in different ways. -/
inductive Look where
  | overrides
  | override
  | validation
  | choices
  | choice
  | rules
  | rule
  | style
  | groups
  | group
  | names
  | values
  | value
  | closed
  deriving DecidableEq, Inhabited

namespace Look

/-- All the ways to look at a place. -/
def all : List Look :=
  [overrides, override, validation, choices, choice, rules, rule, style, groups, group, names,
    values, value, closed]

/-- How the elements of a list are looked at. -/
def items : Look → Option Look
  | overrides => some override
  | choices => some choice
  | rules => some rule
  | groups => some group
  | names => some closed
  | values | value => some value
  | override | validation | choice | rule | style | group | closed => none

/-- How a field of an override is looked at. -/
def ofField : String → Look
  | "validate" => validation
  | "conditions" => rules
  | "subParameters" => overrides
  | "style" => style
  | "subParameterGroupOption" => groups
  | _ => closed

/-- How a field of a validation is looked at. -/
def ofConstraint : String → Look
  | "enum" => values
  | "options" => choices
  | "defaultValue" => value
  | _ => closed

/-- How the fields of a record are looked at. -/
def fields : Look → Option (String → Look)
  | override => some ofField
  | validation => some ofConstraint
  | choice | rule => some fun name => if name = "value" then value else closed
  | group => some fun name => if name = "keys" then names else closed
  | style => some fun _ => closed
  | value => some fun _ => value
  | overrides | choices | rules | groups | names | values | closed => none

end Look

/-- How far the check of overrides looks into a value. -/
def view : Yaml.View Look where
  items := Look.items
  fields := Look.fields

/-- The part of a loaded document that the check looks at; `none` if the check has no end. -/
def looked? (g : Yaml.Graph) : Option Value :=
  g.spelled view Look.all.length .overrides

end ParamForm.Override
