import ParamForm.Parameter.Basic

/-!
# Walks

The order in which a tree is visited, parents before their sub-parameters (`walk`), and the search
for a key in that order (`find?`). The parameters of further keys of a map are not visited. Depths
may be counted in any way that has a next one (`walkBy`).
-/

namespace ParamForm.Parameter

mutual

/-- The parameters of a list in visiting order, with their depths. -/
def walkBy {α : Type} (deeper : α → α) (depth : α) : List Parameter → List (α × Parameter)
  | [] => []
  | p :: ps => walkOneBy deeper depth p ++ walkBy deeper depth ps

/-- A visit to a parameter, and then to those below it. -/
def walkOneBy {α : Type} (deeper : α → α) (depth : α) : Parameter → List (α × Parameter)
  | ⟨info, subs, extra⟩ =>
    (depth, ⟨info, subs, extra⟩) :: walkSubsBy deeper (deeper depth) subs

/-- The visits to sub-parameters, if there are any. -/
def walkSubsBy {α : Type} (deeper : α → α) (depth : α) :
    Option (List Parameter) → List (α × Parameter)
  | none => []
  | some ps => walkBy deeper depth ps

end

/-- The parameters of a list in visiting order, with the numbers of levels above them. -/
def walk (ps : List Parameter) : List (Nat × Parameter) :=
  walkBy (· + 1) 0 ps

mutual

/-- Looks for a key, a parameter before its sub-parameters and these before its next sibling. -/
def find? (key : String) : List Parameter → Option Parameter
  | [] => none
  | p :: ps => (findOne? key p).or (find? key ps)

/-- The first parameter of a key, at a parameter or below it. -/
def findOne? (key : String) : Parameter → Option Parameter
  | ⟨info, subs, extra⟩ =>
    if info.jsonKey = key then some ⟨info, subs, extra⟩ else findSubs? key subs

/-- The first parameter of a key among sub-parameters and below them. -/
def findSubs? (key : String) : Option (List Parameter) → Option Parameter
  | none => none
  | some ps => find? key ps

end

end ParamForm.Parameter
