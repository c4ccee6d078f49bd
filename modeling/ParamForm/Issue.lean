/-!
# Issues

A finding about a document or a configuration: where it is, as a path from the root, and what is
wrong there.
-/

namespace ParamForm

/-- A step of a path: into a field, or to an element of a list. -/
inductive Step where
  | field (name : String)
  | index (i : Nat)
  deriving DecidableEq, Inhabited

/-- The spelling of a step in a path. -/
def Step.text : Step → String
  | field name => name
  | index i => toString i

/-- Something that a check finds wrong: where, and what. -/
structure Issue where
  path : List Step
  message : String
  deriving DecidableEq, Inhabited

namespace Issue

/-- The path with dots between its steps; the root itself is `<root>`. -/
def location (path : List Step) : String :=
  if path.isEmpty then "<root>" else ".".intercalate (path.map Step.text)

/-- The line of an issue in a report. -/
def text (i : Issue) : String :=
  location i.path ++ ": " ++ i.message

/-- A header, and below it one line for each issue. -/
def report (header : String) (issues : List Issue) : String :=
  "\n".intercalate (header :: issues.map fun i => "  • " ++ i.text)

/-- An issue moved below a step. -/
def under (s : Step) (i : Issue) : Issue :=
  { i with path := s :: i.path }

end Issue

end ParamForm
