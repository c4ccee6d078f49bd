/-!
# Diagnostics

Findings of a render that do not stop it, and the views of a list of them: groups by code, counts
(`Summary.ofList`) and a text report.
-/

namespace ParamForm

/-- What a diagnostic is about. -/
inductive Code where
  | fallbackNode
  | unmatchedOverride
  | structureMismatch
  | duplicateOverride
  deriving DecidableEq, Inhabited

/-- How much a finding matters. -/
inductive Severity where
  | warning
  | info
  deriving DecidableEq, Inhabited

namespace Code

/-- All codes, in the order in which they are declared. -/
def all : List Code :=
  [fallbackNode, unmatchedOverride, structureMismatch, duplicateOverride]

/-- The spelling of a code in a report. -/
def name : Code → String
  | fallbackNode => "FALLBACK_NODE"
  | unmatchedOverride => "UNMATCHED_OVERRIDE"
  | structureMismatch => "STRUCTURE_MISMATCH"
  | duplicateOverride => "DUPLICATE_OVERRIDE"

/-- The code of a spelling, if it is one of the four. -/
def ofName? (s : String) : Option Code :=
  all.find? (·.name == s)

/-- The severity that comes with a code. -/
def severity : Code → Severity
  | fallbackNode | structureMismatch => .warning
  | unmatchedOverride | duplicateOverride => .info

end Code

/-- The spelling of a severity in a summary. -/
def Severity.name : Severity → String
  | warning => "warning"
  | info => "info"

/-- The spelling of a severity in a report. -/
def Severity.heading : Severity → String
  | warning => "WARNING"
  | info => "INFO"

/-- A finding about the parameter of a key. -/
structure Diagnostic where
  code : Code
  jsonKey : String
  message : String
  deriving DecidableEq, Inhabited

/-- The severity of a diagnostic, which is that of its code. -/
def Diagnostic.severity (d : Diagnostic) : Severity :=
  d.code.severity

namespace Diagnostic

/-- Adds a diagnostic to the group of its code, or starts the group after all others. -/
def addToGroups (d : Diagnostic) :
    List (Code × List Diagnostic) → List (Code × List Diagnostic)
  | [] => [(d.code, [d])]
  | (c, ds) :: groups =>
    if c = d.code then (c, ds ++ [d]) :: groups else (c, ds) :: addToGroups d groups

/-- The diagnostics by code, the groups in the order in which their codes appear. -/
def groups (ds : List Diagnostic) : List (Code × List Diagnostic) :=
  ds.foldl (fun groups d => addToGroups d groups) []

/-- The line of one diagnostic in a report. -/
def line (d : Diagnostic) : String :=
  "  [" ++ d.severity.heading ++ "] " ++ d.jsonKey ++ ": " ++ d.message

/-- The lines of one group in a report: a blank one, the code with the number of its diagnostics,
and then these. -/
def groupLines (group : Code × List Diagnostic) : List String :=
  ["", group.1.name ++ " (" ++ toString group.2.length ++ "):"] ++ group.2.map line

/-- The text of a report: a head with the total, and one group after another. -/
def report (ds : List Diagnostic) : String :=
  "\n".intercalate
    (["UI Schema Render Report", String.ofList (List.replicate 40 '─'),
        "Total: " ++ toString ds.length]
      ++ (groups ds).flatMap groupLines)

end Diagnostic

/-- How many diagnostics there are, in all, of a code and of a severity. -/
structure Summary where
  total : Nat
  byCode : Code → Nat
  bySeverity : Severity → Nat

/-- The numbers of diagnostics in a list. -/
def Summary.ofList (ds : List Diagnostic) : Summary where
  total := ds.length
  byCode c := ds.countP (·.code = c)
  bySeverity s := ds.countP (·.severity = s)

/-- A step on a reporter's list of diagnostics. -/
inductive ReporterStep where
  | report (d : Diagnostic)
  | clear

/-- The diagnostics after a step: one more at the end, or none. -/
def ReporterStep.run (ds : List Diagnostic) : ReporterStep → List Diagnostic
  | report d => ds ++ [d]
  | clear => []

end ParamForm
