import ParamForm.Number.Basic

/-!
# Shortest numerals

`Number.shortest` gives the fewest decimal digits that read back as a value, and of those the
numeral nearest to it. `Number.text` writes them out: positionally from `1e-6` up to `1e21`, with
an exponent outside.
-/

namespace ParamForm.Number

/-- A positive dyadic number `m * 2 ^ q` with the significand that its format stores. -/
structure Dyadic where
  m : Nat
  q : Int

/-- The stored significand of a positive `m / 2 ^ k`: 53 bits, or fewer where units would get
smaller than `2 ^ -1074`. -/
def Dyadic.ofFraction (m k : Nat) : Dyadic :=
  let bits := m.log2 + 1
  if bits ≤ 53 then
    let shift := min (53 - bits) (1074 - k)
    ⟨m * twoPow shift, -((k + shift : Nat) : Int)⟩
  else ⟨m / twoPow (bits - 53), ((bits - 53 : Nat) : Int) - k⟩

/-- A fraction with the ends of the interval that rounds to it, over one denominator; the ends
belong to the interval when `closed`. -/
structure Interval where
  low : Nat
  mid : Nat
  high : Nat
  den : Nat
  closed : Bool

/-- The reals that round to a dyadic number reach half a unit up, and half a unit down, or a
quarter at the bottom of a binade. -/
def Dyadic.interval (d : Dyadic) : Interval :=
  let down := if d.m = twoPow 52 ∧ -1074 < d.q then 1 else 2
  let closed := d.m % 2 = 0
  match d.q - 2 with
  | .ofNat e =>
    let unit := twoPow e
    ⟨(4 * d.m - down) * unit, 4 * d.m * unit, (4 * d.m + 2) * unit, 1, closed⟩
  | .negSucc k => ⟨4 * d.m - down, 4 * d.m, 4 * d.m + 2, twoPow (k + 1), closed⟩

/-- How many decimal digits a number has; zero has none. -/
def digitCount (n : Nat) : Nat :=
  if n = 0 then 0 else (Nat.toDigits 10 n).length

/-- The `p` with `10 ^ (p - 1) ≤ num / den < 10 ^ p`, for a positive ratio. -/
def decimalPoint (num den : Nat) : Int :=
  if den ≤ num then digitCount (num / den)
  else 1 - (digitCount ((den - 1) / num) : Int)

/-- A decimal numeral `digits * 10 ^ exponent`. -/
structure Numeral where
  digits : Nat
  exponent : Int
  deriving DecidableEq

/-- The numeral over a denominator: `digits * 10 ^ exponent = n / den` as the pair `(n, den)`. -/
def Numeral.ratio (d : Numeral) : Nat × Nat :=
  match d.exponent with
  | .ofNat e => (d.digits * tenPow e, 1)
  | .negSucc k => (d.digits, tenPow (k + 1))

/-- Whether a numeral rounds to the interval's number. -/
def Interval.holds (i : Interval) (d : Numeral) : Bool :=
  let (n, den) := d.ratio
  if i.closed then i.low * den ≤ n * i.den && n * i.den ≤ i.high * den
  else i.low * den < n * i.den && n * i.den < i.high * den

/-- The largest multiple of `10 ^ e` that is not above the interval's number. -/
def Interval.below (i : Interval) (e : Int) : Numeral :=
  match e with
  | .ofNat k => ⟨i.mid / (i.den * tenPow k), e⟩
  | .negSucc k => ⟨i.mid * tenPow (k + 1) / i.den, e⟩

/-- Twice the distance between a numeral above and the interval's number is compared with one step
of the grid: the lower neighbour is nearer, the upper one is, or neither. -/
def Interval.nearer (i : Interval) (lower : Numeral) : Numeral :=
  let upper : Numeral := ⟨lower.digits + 1, lower.exponent⟩
  let (a, den) := lower.ratio
  let (b, _) := upper.ratio
  let fromLower := i.mid * den - a * i.den
  let fromUpper := b * i.den - i.mid * den
  if fromLower < fromUpper then lower
  else if fromUpper < fromLower then upper
  else if lower.digits % 2 = 0 then lower else upper

/-- The numeral on the grid of step `10 ^ e` that rounds to the interval's number, if there is
one. -/
def Interval.onGrid (i : Interval) (e : Int) : Option Numeral :=
  let lower := i.below e
  let upper : Numeral := ⟨lower.digits + 1, lower.exponent⟩
  match lower.digits ≠ 0 && i.holds lower, i.holds upper with
  | true, true => some (i.nearer lower)
  | true, false => some lower
  | false, true => some upper
  | false, false => none

/-- The first grid with a hit, from `10 ^ e` down, `steps` grids at most; after the last, the
nearest point of the grid that follows. -/
def Interval.search (i : Interval) (e : Int) : Nat → Numeral
  | 0 => i.nearer (i.below e)
  | steps + 1 =>
    match i.onGrid e with
    | some d => d
    | none => i.search (e - 1) steps

/-- A numeral without zeros at its end. -/
def Numeral.trimmed (d : Numeral) : Nat → Numeral
  | 0 => d
  | steps + 1 =>
    if d.digits ≠ 0 ∧ d.digits % 10 = 0 then
      Numeral.trimmed ⟨d.digits / 10, d.exponent + 1⟩ steps
    else d

/-- The shortest numeral that rounds to `m / 2 ^ k`. Seventeen digits always suffice. -/
def shortest (m k : Nat) : Numeral :=
  let i := (Dyadic.ofFraction m k).interval
  (i.search (decimalPoint i.mid i.den - 1) 16).trimmed 20

/-- Writes a numeral: positionally when the decimal point falls from six places before its first
digit to twenty-one after it, and with an exponent otherwise. -/
def Numeral.text (d : Numeral) : List Char :=
  let digits := Nat.toDigits 10 d.digits
  let point : Int := (digits.length : Int) + d.exponent
  if (digits.length : Int) ≤ point ∧ point ≤ 21 then
    digits ++ List.replicate (point - digits.length).toNat '0'
  else if 0 < point ∧ point ≤ 21 then
    digits.take point.toNat ++ '.' :: digits.drop point.toNat
  else if -6 < point ∧ point ≤ 0 then
    '0' :: '.' :: (List.replicate (-point).toNat '0' ++ digits)
  else
    let e := point - 1
    let sign := if e < 0 then '-' else '+'
    digits.take 1 ++ (if digits.length = 1 then [] else '.' :: digits.drop 1)
      ++ 'e' :: sign :: Nat.toDigits 10 e.natAbs

/-- The text of a positive `m / 2 ^ k`. An integer below `2 ^ 53` has no shorter numeral than its
own digits. -/
def magnitudeText (m k : Nat) : List Char :=
  if k = 0 ∧ m < twoPow 53 then Nat.toDigits 10 m else (shortest m k).text

/-- The text of a number; both zeros are written `0`. -/
def text : Number → List Char
  | .whole n =>
    if n < 0 then '-' :: magnitudeText n.natAbs 0 else magnitudeText n.natAbs 0
  | .negZero => ['0']
  | .fraction neg m k => if neg then '-' :: magnitudeText m k else magnitudeText m k
  | .infinity neg => if neg then "-Infinity".toList else "Infinity".toList
  | .nan => "NaN".toList

end ParamForm.Number
