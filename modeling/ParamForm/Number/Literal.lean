import ParamForm.Number.Basic

/-!
# Number literals

Readers of numerals: runs of digits in a base, unsigned decimal numerals with an optional fraction
and exponent, and the literals that a configuration value may hold (`Number.ofLiteral?`).
-/

namespace ParamForm

/-- The value of a digit in bases up to sixteen. -/
def digitValue? (c : Char) : Option Nat :=
  if '0' ≤ c ∧ c ≤ '9' then some (c.toNat - '0'.toNat)
  else if 'a' ≤ c ∧ c ≤ 'f' then some (c.toNat - 'a'.toNat + 10)
  else if 'A' ≤ c ∧ c ≤ 'F' then some (c.toNat - 'A'.toNat + 10)
  else none

/-- The value of a digit of a base. -/
def digitIn? (base : Nat) (c : Char) : Option Nat :=
  (digitValue? c).filter (· < base)

/-- The number that a run of digits writes after the digits of `acc`. -/
def digitsValue (base : Nat) (acc : Nat) (cs : List Char) : Nat :=
  cs.foldl (fun n c => n * base + (digitValue? c).getD 0) acc

/-- A nonempty run of digits of a base, and nothing else. -/
def wholeNumeral? (base : Nat) (cs : List Char) : Option Nat :=
  if cs.isEmpty then none
  else if cs.all (fun c => (digitIn? base c).isSome) then some (digitsValue base 0 cs)
  else none

/-- The exponent part of a decimal numeral: nothing, or `e` or `E`, a sign if any, and digits. -/
def exponentPart? : List Char → Option Int
  | [] => some 0
  | e :: cs =>
    if e = 'e' ∨ e = 'E' then
      match cs with
      | '+' :: ds => (wholeNumeral? 10 ds).map (fun n => (n : Int))
      | '-' :: ds => (wholeNumeral? 10 ds).map (fun n => -(n : Int))
      | ds => (wholeNumeral? 10 ds).map (fun n => (n : Int))
    else none

/-- An unsigned decimal numeral `digits * 10 ^ exponent`: digits with at most one point among or
around them, at least one digit, and an exponent part. -/
def decimalNumeral? (cs : List Char) : Option (Nat × Int) :=
  let (front, rest) := cs.span Char.isDigit
  let (back, tail) := match rest with
    | '.' :: more => more.span Char.isDigit
    | _ => ([], rest)
  if front.isEmpty ∧ back.isEmpty then none
  else (exponentPart? tail).map fun e => (digitsValue 10 0 (front ++ back), e - back.length)

namespace Number

/-- The value of an unsigned decimal numeral, with a sign put before it. -/
def ofNumeral? (neg : Bool) (cs : List Char) : Option Number :=
  (decimalNumeral? cs).map fun (n, e) => ofDecimal neg n e

/-- An unsigned decimal numeral or the word `Infinity`. -/
def ofMagnitude? (neg : Bool) (cs : List Char) : Option Number :=
  if cs = "Infinity".toList then some (.infinity neg) else ofNumeral? neg cs

/-- Reads a literal: a decimal numeral or `Infinity` with a sign if any, or a whole number in base
two, eight or sixteen after `0b`, `0o` or `0x` in either case, without a sign. -/
def ofLiteral? : List Char → Option Number
  | '+' :: cs => ofMagnitude? false cs
  | '-' :: cs => ofMagnitude? true cs
  | '0' :: b :: cs =>
    let inBase (base : Nat) := (wholeNumeral? base cs).map fun n => ofRatio false n 1
    if b = 'x' ∨ b = 'X' then inBase 16
    else if b = 'o' ∨ b = 'O' then inBase 8
    else if b = 'b' ∨ b = 'B' then inBase 2
    else ofMagnitude? false ('0' :: b :: cs)
  | cs => ofMagnitude? false cs

end Number

end ParamForm
