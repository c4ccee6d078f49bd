import ParamForm.Value.Basic

/-!
# Visibility rules

A rule tests the value of one parameter and shows or hides another by the outcome.
-/

namespace ParamForm

/-- How a rule compares the value it finds with its own. -/
inductive Operator where
  | equal
  | notEqual
  | isIn
  deriving DecidableEq, Inhabited

/-- The spelling of an operator in a document. -/
def Operator.name : Operator → String
  | equal => "=="
  | notEqual => "!="
  | isIn => "in"

/-- The operator of a spelling, if it is one of the three. -/
def Operator.ofName? (s : String) : Option Operator :=
  [equal, notEqual, isIn].find? (·.name == s)

/-- Whether a rule shows the parameter when its test holds, or hides it then. -/
inductive Action where
  | enable
  | disable
  deriving DecidableEq, Inhabited

/-- The spelling of an action in a document. -/
def Action.name : Action → String
  | enable => "enable"
  | disable => "disable"

/-- The action of a spelling, if it is one of the two. -/
def Action.ofName? (s : String) : Option Action :=
  [enable, disable].find? (·.name == s)

/-- A rule about the parameter `jsonKey`. Without an operator it asks for equality, without an
action it shows. -/
structure Rule where
  jsonKey : String
  operator : Option Operator
  value : Value
  action : Option Action
  deriving Inhabited

end ParamForm
