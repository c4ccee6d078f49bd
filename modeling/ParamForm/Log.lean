import ParamForm.Value.Basic

/-!
# Logs

The lines that rendering and the definition service write, and a logger that puts the name of its
scope before each and drops debug lines unless it is asked for them.
-/

namespace ParamForm

/-- The levels of log lines. -/
inductive Level where
  | debug
  | info
  | warn
  | error
  deriving DecidableEq, Inhabited

/-- The spelling of a level. -/
def Level.name : Level → String
  | debug => "debug"
  | info => "info"
  | warn => "warn"
  | error => "error"

/-- The level of a spelling, if it is one of the four. -/
def Level.ofName? (s : String) : Option Level :=
  [Level.debug, .info, .warn, .error].find? (·.name == s)

/-- The part of the library that writes a line. -/
inductive Scope where
  | engine
  | service
  deriving DecidableEq, Inhabited

/-- The head of a part's log lines. -/
def Scope.heading : Scope → String
  | engine => "ui-schema"
  | service => "definition-ui-schema"

/-- One line that a part of the program writes to its log. -/
structure LogLine where
  scope : Scope
  level : Level
  message : String
  deriving DecidableEq, Inhabited

/-- A sink for the lines of one part, which leaves out those for debugging unless it is told to keep
them. -/
structure Logger where
  heading : String
  debug : Bool

/-- What a logger hands on of a message with details: the bracketed heading, then both as they
are. -/
def Logger.write (logger : Logger) (level : Level) (message : Value) (details : List Value) :
    Option (Level × List Value) :=
  if level = .debug ∧ !logger.debug then none
  else some (level, .text ("[" ++ logger.heading ++ "]") :: message :: details)

/-- The logger of a scope when none is passed in: only the engine's can be asked for debug lines. -/
def Scope.logger (scope : Scope) (debug : Bool) : Logger where
  heading := scope.heading
  debug := match scope with
    | .engine => debug
    | .service => false

end ParamForm
