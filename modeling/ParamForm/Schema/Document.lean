import ParamForm.Document

/-!
# Schema documents

Reading of the stored text of a schema, which has to be an object.
-/

namespace ParamForm.Schema

/-- What a stored text is loaded as if it is a schema. -/
def parse (text : String) : Except Failure Yaml.Loaded := do
  let l ← loadDocument "schema" text
  if l.isObject then .ok l
  else .error (.document "schema" [⟨[], "schema document must be a mapping"⟩])

/-- The schema of a stored text, to be rendered. A rendering takes a value: of a schema that is inside
itself none is made here, and `noText` stands for whatever becomes of it. -/
def ofText (text : String) : Except Failure Value := do
  match ← parse text with
  | .tree v => .ok v
  | .cyclic _ => .error .noText

end ParamForm.Schema
