import ParamForm.Parameter.Basic
import ParamForm.Text.Units

/-!
# Order of siblings

Required parameters come first, then those with fewer sub-parameters, then by label and by key.
After that the siblings are numbered one after another. `arrange` does both for a list and for
every list of sub-parameters in it, and for the sub-parameters of each map's value parameter.
-/

namespace ParamForm.Parameter

/-- The number that a list without sort values of its own starts from. -/
def usualSort : Number := .whole 100

/-- The order inside a group of siblings: by the number of sub-parameters, the label and the
key. -/
def compareSiblings (a b : Parameter) : Ordering :=
  (compare a.childCount b.childCount).then <|
    (Text.compareUnits a.info.label b.info.label).then <|
      Text.compareUnits a.jsonKey b.jsonKey

/-- Siblings in order: the required ones, then the others. -/
def inOrder (ps : List Parameter) : List Parameter :=
  let sorted (ps : List Parameter) := ps.mergeSort fun a b => (compareSiblings a b).isLE
  sorted (ps.filter (·.required)) ++ sorted (ps.filter (! ·.required))

/-- The smaller of two sort values, where only positive integers count. -/
def smallerSort (least : Option Int) (x : Number) : Option Int :=
  match x with
  | .whole n =>
    if 0 < n then some (match least with
      | some m => if n < m then n else m
      | none => n)
    else least
  | _ => least

/-- The number that a list starts from: its smallest positive integer sort value, or the default. -/
def sortBase (defaultSort : Number) (ps : List Parameter) : Number :=
  match ps.foldl (fun least p => smallerSort least p.info.sort) none with
  | some n => .whole n
  | none => defaultSort

/-- Gives siblings consecutive numbers. -/
def numbered (base : Number) (ps : List Parameter) : List Parameter :=
  ps.zipIdx.map fun (p, i) => { p with info := { p.info with sort := base.plus i } }

/-- Puts siblings in order and numbers them. -/
def sortSiblings (defaultSort : Number) (ps : List Parameter) : List Parameter :=
  numbered (sortBase defaultSort ps) (inOrder ps)

mutual

/-- A parameter with every list of sub-parameters below it sorted. -/
def arrangeBelow (defaultSort : Number) : Parameter → Parameter
  | ⟨info, subs, extra⟩ => ⟨info, arrangeSubs defaultSort subs, arrangeExtra defaultSort extra⟩

/-- The parameters, each with what is below it in order. -/
def arrangeEach (defaultSort : Number) : List Parameter → List Parameter
  | [] => []
  | p :: ps => arrangeBelow defaultSort p :: arrangeEach defaultSort ps

/-- Sub-parameters in order, if there are any. -/
def arrangeSubs (defaultSort : Number) : Option (List Parameter) → Option (List Parameter)
  | none => none
  | some ps => some (sortSiblings defaultSort (arrangeEach defaultSort ps))

/-- The parameter of a map's values: its own sub-parameters are sorted, but those of a further map
inside it are not. -/
def arrangeExtra (defaultSort : Number) : Option Parameter → Option Parameter
  | none => none
  | some ⟨info, subs, extra⟩ => some ⟨info, arrangeSubs defaultSort subs, extra⟩

end

/-- The tree with every list of siblings in order and numbered. -/
def arrange (defaultSort : Number) (ps : List Parameter) : List Parameter :=
  sortSiblings defaultSort (arrangeEach defaultSort ps)

end ParamForm.Parameter
