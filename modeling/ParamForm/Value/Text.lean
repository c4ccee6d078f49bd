import ParamForm.Text.Case
import ParamForm.Value.Json

/-!
# Values inside sentences

The text that a value has inside a message or as a name (`Value.text?`), and the label of an
option (`Value.optionLabel`).
-/

namespace ParamForm.Value

mutual

/-- The text of a value inside a sentence. A list is its elements with commas between them, those
that hold nothing empty; a record has no content of its own to show, and one with a field
`toString` has no text at all. -/
def text? : Value → Option (List Char)
  | .absent => some "undefined".toList
  | .null => some "null".toList
  | .bool b => some (if b then "true".toList else "false".toList)
  | .number x => some x.text
  | .text s => some s.toList
  | .date ms => some (Calendar.longForm ms)
  | .bytes bs => some (commaJoined (bs.map fun b => Nat.toDigits 10 b.toNat))
  | .list vs => (itemTexts? vs).map commaJoined
  | .record fields =>
    if Fields.has fields "toString" then none else some "[object Object]".toList

/-- The texts of items, if all have one. That of null, and of an absent one, is empty. -/
def itemTexts? : List Value → Option (List (List Char))
  | [] => some []
  | v :: vs =>
    match v with
    | .absent | .null => (itemTexts? vs).map ([] :: ·)
    | v => (text? v).bind fun cs => (itemTexts? vs).map (cs :: ·)

end

/-- The label of an option: JSON for lists and objects, and otherwise the text of the value with
its first character in upper case, except that `null` stays as it is. -/
def optionLabel (v : Value) : String :=
  match v with
  | .null => "null"
  | .list _ | .record _ | .date _ | .bytes _ => String.ofList ((json? v).getD [])
  | v => Text.firstUpper (String.ofList ((text? v).getD []))

end ParamForm.Value
