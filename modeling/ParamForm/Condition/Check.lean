import ParamForm.Failure
import ParamForm.Override.Basic
import ParamForm.Parameter.Walk

/-!
# Checks of conditions

Every rule of an override tree has to name a parameter of the tree that it will be laid over, and
not the parameter that it belongs to. All rules that do not are reported together, an override's own
before those of the overrides below it.
-/

namespace ParamForm.Override

/-- What is wrong with a rule of the override of `owner`, in a tree of parameters. -/
def ruleFault? (ps : List Parameter) (owner : String) (rule : Rule) : Option String :=
  if rule.jsonKey = owner then some ("condition of \"" ++ owner ++ "\" cannot depend on itself")
  else if (Parameter.find? rule.jsonKey ps).isNone then
    some ("condition refers to unknown parameter \"" ++ rule.jsonKey ++ "\"")
  else none

/-- The issues of a list of rules, counted from `i`. -/
def ruleIssues (ps : List Parameter) (owner : String) (i : Nat) : List Rule → List Issue
  | [] => []
  | rule :: rules =>
    let rest := ruleIssues ps owner (i + 1) rules
    match ruleFault? ps owner rule with
    | some message => ⟨[.field "conditions", .index i, .field "jsonKey"], message⟩ :: rest
    | none => rest

mutual

/-- The issues of a list of overrides, counted from `i`. -/
def conditionIssues (ps : List Parameter) (i : Nat) : List Override → List Issue
  | [] => []
  | o :: os => (issuesOf ps o).map (Issue.under (.index i)) ++ conditionIssues ps (i + 1) os

/-- The issues of an override: of its own rules, then of the overrides below it. -/
def issuesOf (ps : List Parameter) : Override → List Issue
  | ⟨key, _, _, _, _, conditions, _, subs, _, _, _, _⟩ =>
    ruleIssues ps key 0 (conditions.getD []) ++ issuesBelow ps subs

/-- The issues of the overrides below one, none where it has no list of them. -/
def issuesBelow (ps : List Parameter) : Option (List Override) → List Issue
  | none => []
  | some os => (conditionIssues ps 0 os).map (Issue.under (.field "subParameters"))

end

/-- Fails with the issues of all conditions, if there are any. -/
def checkConditions (os : List Override) (ps : List Parameter) : Except Failure Unit :=
  match conditionIssues ps 0 os with
  | [] => .ok ()
  | issues => .error (.uiSchema issues)

end ParamForm.Override
