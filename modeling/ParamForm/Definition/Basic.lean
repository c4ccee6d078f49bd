/-!
# Definitions

What a parameter schema belongs to, and the names under which its two documents are stored.
-/

namespace ParamForm

/-- The four sorts of definitions that have a form. -/
inductive DefinitionType where
  | component
  | trait
  | workflowStep
  | policy
  deriving DecidableEq, Inhabited

namespace DefinitionType

/-- The spelling of a type, as it stands in document names and in messages. -/
def name : DefinitionType → String
  | component => "component"
  | trait => "trait"
  | workflowStep => "workflowstep"
  | policy => "policy"

/-- The type of a spelling, if it is one of the four. -/
def ofName? (s : String) : Option DefinitionType :=
  [component, trait, workflowStep, policy].find? (·.name == s)

end DefinitionType

/-- A definition that a form is rendered for. -/
structure Definition where
  type : DefinitionType
  name : String
  deriving DecidableEq, Inhabited

namespace Definition

/-- The name under which the schema of a definition is stored. -/
def schemaName (d : Definition) : String :=
  d.type.name ++ "-schema-" ++ d.name

/-- The name under which the overrides of a definition are stored. -/
def overridesName (d : Definition) : String :=
  d.type.name ++ "-uischema-" ++ d.name

end Definition

end ParamForm
