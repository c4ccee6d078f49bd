import ParamForm.Log
import ParamForm.Options
import ParamForm.Parameter.Derive
import ParamForm.Parameter.Patch
import ParamForm.Parameter.Sort

/-!
# Rendering

The parameter tree that clients are served: derived from a schema, put in order, and with the
overrides laid over it.
-/

namespace ParamForm

/-- A tree and what was found while it was made. -/
structure Rendering where
  parameters : List Parameter
  diagnostics : List Diagnostic
  deriving Inhabited

namespace Rendering

/-- The numbers of the findings of a rendering. -/
def summary (r : Rendering) : Summary :=
  Summary.ofList r.diagnostics

/-- The debug lines of a render with a number of overrides. -/
def log (r : Rendering) (overrideCount : Nat) : List LogLine :=
  let line (message : String) : LogLine := ⟨.engine, .debug, message⟩
  line ("rendered " ++ toString r.parameters.length ++ " root parameters with "
      ++ toString overrideCount ++ " overrides, " ++ toString r.diagnostics.length
      ++ " diagnostics")
    :: r.diagnostics.map fun d => line (d.code.name ++ " " ++ d.jsonKey ++ ": " ++ d.message)

/-- Renders a schema. Without overrides the sorted tree is served as it is. -/
def ofSchema (options : Options) (schema : Value) (overrides : List Override) :
    Except Failure Rendering := do
  let (derived, found) ← Schema.deriveRoot options.defaultSort schema
  let sorted := Parameter.arrange options.defaultSort derived
  if overrides.isEmpty then .ok ⟨sorted, found⟩
  else
    let (patched, foundOnTheWay) ← Parameter.patch sorted overrides
    .ok ⟨patched, found ++ foundOnTheWay⟩

end Rendering

end ParamForm
