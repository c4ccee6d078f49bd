import ParamForm.Document
import ParamForm.Override.Look
import ParamForm.Override.Plain
import ParamForm.Override.Shape
import ParamForm.Yaml.Writer

/-!
# Override documents

Reading and writing of the stored text of overrides. No text, a blank one and one that holds nothing
mean that there are no overrides.
-/

namespace ParamForm.Override

/-- The overrides of what was loaded; `none` if their check has no end. -/
def ofLoaded : Yaml.Loaded → Option (Except Failure (List Override))
  | .tree .null | .tree .absent => some (.ok [])
  | .tree v => some (ofValue v)
  | .cyclic g => (looked? g).map ofValue

/-- What reading the stored text of overrides comes to; `none` if it has no end. -/
def parse : Option String → Option (Except Failure (List Override))
  | none => some (.ok [])
  | some text =>
    if (Text.trim text).isEmpty then some (.ok [])
    else match loadDocument "override" text with
      | .ok l => ofLoaded l
      | .error f => some (.error f)

/-- The overrides of a stored text. Where reading has no end the runtime gives it up, for which
`noText` stands here too. -/
def ofText (text : Option String) : Except Failure (List Override) :=
  (parse text).getD (.error .noText)

/-- The text to store for overrides. -/
def text (os : List Override) : String :=
  Yaml.dump (.list (toValues os))

end ParamForm.Override
