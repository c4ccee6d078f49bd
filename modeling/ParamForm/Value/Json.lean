import ParamForm.Calendar
import ParamForm.Number.Shortest
import ParamForm.Value.Basic

/-!
# Compact JSON

The one-line JSON text of a value. Fields that hold nothing are left out, and in a list such a place
is `null`, as is a number that JSON cannot write.
-/

namespace ParamForm.Value

/-- A character below `U+0020` by its number. -/
def controlEscape (n : Nat) : List Char :=
  let hex := Nat.toDigits 16 n
  "\\u".toList ++ List.replicate (4 - hex.length) '0' ++ hex

/-- A character inside quotes. -/
def jsonChar (c : Char) : List Char :=
  match c with
  | '"' => ['\\', '"']
  | '\\' => ['\\', '\\']
  | '\x08' => ['\\', 'b']
  | '\t' => ['\\', 't']
  | '\n' => ['\\', 'n']
  | '\x0c' => ['\\', 'f']
  | '\r' => ['\\', 'r']
  | c => if c.toNat < 0x20 then controlEscape c.toNat else [c]

/-- A text in quotes. -/
def jsonText (cs : List Char) : List Char :=
  '"' :: (cs.flatMap jsonChar ++ ['"'])

/-- Texts with commas between them. -/
def commaJoined : List (List Char) → List Char
  | [] => []
  | [p] => p
  | p :: ps => p ++ ',' :: commaJoined ps

mutual

/-- The JSON text of a value, if it holds something. -/
def json? : Value → Option (List Char)
  | .absent => none
  | .null => some "null".toList
  | .bool b => some (if b then "true".toList else "false".toList)
  | .number x => some (if x.isFinite then x.text else "null".toList)
  | .text s => some (jsonText s.toList)
  | .date ms => some (jsonText (Calendar.timestamp ms))
  | .bytes bs =>
    let parts := bs.zipIdx.map fun (b, i) =>
      jsonText (Nat.toDigits 10 i) ++ ':' :: Nat.toDigits 10 b.toNat
    some ('\x7b' :: (commaJoined parts ++ ['\x7d']))
  | .list vs => some ('[' :: (commaJoined (jsonItems vs) ++ [']']))
  | .record fields => some ('\x7b' :: (commaJoined (jsonFields fields) ++ ['\x7d']))

/-- The texts of items. What has none is written as null. -/
def jsonItems : List Value → List (List Char)
  | [] => []
  | v :: vs => (json? v).getD "null".toList :: jsonItems vs

/-- The texts of fields. Those whose values have none are left out. -/
def jsonFields : List (String × Value) → List (List Char)
  | [] => []
  | (name, v) :: fields =>
    match json? v with
    | some cs => (jsonText name.toList ++ ':' :: cs) :: jsonFields fields
    | none => jsonFields fields

end

end ParamForm.Value
