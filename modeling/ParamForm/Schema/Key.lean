/-!
# Keys

A parameter's key is the path of property names that leads to it, with dots between them.
-/

namespace ParamForm.Key

/-- The key of a property below a parent's key; at the top the name alone. -/
def join (parent name : String) : String :=
  if parent.isEmpty then name else parent ++ "." ++ name

/-- Splits at every dot. -/
def splitChars : List Char → List (List Char)
  | [] => [[]]
  | c :: cs =>
    if c = '.' then [] :: splitChars cs
    else match splitChars cs with
      | [] => [[c]]
      | s :: ss => (c :: s) :: ss

/-- The segments of a key. -/
def split (key : String) : List String :=
  (splitChars key.toList).map String.ofList

end ParamForm.Key
