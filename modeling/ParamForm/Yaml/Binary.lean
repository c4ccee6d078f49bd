import ParamForm.Yaml.Cursor

/-!
# Binary data as text

Base 64: each character stands for six bits, and `=` fills the last group of four.
-/

namespace ParamForm.Yaml

/-- The six bits of a character. -/
def base64Value? (c : Char) : Option Nat :=
  if 'A' ≤ c ∧ c ≤ 'Z' then some (c.toNat - 'A'.toNat)
  else if 'a' ≤ c ∧ c ≤ 'z' then some (c.toNat - 'a'.toNat + 26)
  else if '0' ≤ c ∧ c ≤ '9' then some (c.toNat - '0'.toNat + 52)
  else if c = '+' then some 62
  else if c = '/' then some 63
  else none

/-- The bytes of groups of four. Two or three characters at the end give one or two bytes, one
gives none, and an end without any gives three zeros only if there was no group at all. -/
def base64Bytes : List Nat → List UInt8
  | a :: b :: c :: d :: rest =>
    let n := ((a * 64 + b) * 64 + c) * 64 + d
    (n / 65536).toUInt8 :: (n / 256).toUInt8 :: n.toUInt8 :: base64Bytes rest
  | [a, b, c] =>
    let n := (a * 64 + b) * 64 + c
    [(n / 1024).toUInt8, (n / 4).toUInt8]
  | [a, b] => [((a * 64 + b) / 16).toUInt8]
  | _ => []

/-- The bytes that a text writes. Line ends do not count; the number of characters, `=` included,
must make up whole bytes. The empty text stands for three zeros. -/
def binary? (cs : List Char) : Option (List UInt8) :=
  let marks := cs.filter fun c => !isBreak c
  let values := (marks.filter (· ≠ '=')).map base64Value?
  if marks.length * 6 % 8 ≠ 0 ∨ values.any Option.isNone then none
  else
    let values := values.filterMap id
    some (if values.isEmpty then [0, 0, 0] else base64Bytes values)

end ParamForm.Yaml
