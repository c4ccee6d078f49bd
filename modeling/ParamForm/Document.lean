import ParamForm.Failure
import ParamForm.Yaml.Document

/-!
# Stored documents

The data of a stored text. A problem of the text becomes the one issue of a failure of its document.
-/

namespace ParamForm

/-- The failure of a kind of document whose text cannot be read. -/
def Failure.ofFault (documentKind : String) : Yaml.Fault → Failure
  | .problem p => .document documentKind [⟨[], p.text⟩]
  | .noText => .noText
  | .severalDocuments => .severalDocuments

/-- Reads a text as the data of a kind of document. -/
def loadDocument (documentKind text : String) : Except Failure Yaml.Loaded :=
  (Yaml.load text).mapError (Failure.ofFault documentKind)

end ParamForm
