/-!
# Numbers

A number is a value of the binary64 format, kept as an exact integer or dyadic fraction. Every
operation computes exactly and then rounds once (`ofRatio`), to the nearest value, a tie going to
the even significand.
-/

namespace ParamForm

/-- A binary64 value: the integer `n`, the zero with a minus sign, `± m / 2 ^ k` with `m` odd and
`0 < k`, an infinity, or no number. -/
inductive Number where
  | whole (n : Int)
  | negZero
  | fraction (neg : Bool) (m k : Nat)
  | infinity (neg : Bool)
  | nan
  deriving DecidableEq, Inhabited

namespace Number

/-- A power of two. -/
def twoPow (e : Nat) : Nat :=
  Nat.pow 2 e

/-- A power of ten. -/
def tenPow (e : Nat) : Nat :=
  Nat.pow 10 e

/-- The integer nearest to `num / den`, a half going to the even neighbour. -/
def divRound (num den : Nat) : Nat :=
  let q := num / den
  let r := num % den
  if den < 2 * r ∨ (2 * r = den ∧ q % 2 = 1) then q + 1 else q

/-- A natural number with a sign. -/
def signed (neg : Bool) (n : Nat) : Int :=
  if neg then -(n : Int) else n

/-- The zero of a sign. -/
def zero (neg : Bool) : Number :=
  if neg then .negZero else .whole 0

/-- `± m / 2 ^ k` in lowest terms, for a positive `m`. -/
def reduced (neg : Bool) (m : Nat) : Nat → Number
  | 0 => .whole (signed neg m)
  | k + 1 => if m % 2 = 0 then reduced neg (m / 2) k else .fraction neg m (k + 1)

/-- `± m * 2 ^ q`; past the largest finite value it is an infinity. -/
def scaled (neg : Bool) (m : Nat) (q : Int) : Number :=
  if m = 0 then zero neg
  else match q with
    | .ofNat e =>
      let n := m * twoPow e
      if n < twoPow 1024 then .whole (signed neg n) else .infinity neg
    | .negSucc k => reduced neg m (k + 1)

/-- Whether `2 ^ e ≤ num / den`. -/
def powLe (num den : Nat) : Int → Bool
  | .ofNat e => den * twoPow e ≤ num
  | .negSucc k => den ≤ num * twoPow (k + 1)

/-- The `e` with `2 ^ e ≤ num / den < 2 ^ (e + 1)`, for a positive ratio. -/
def binaryExponent (num den : Nat) : Int :=
  let e : Int := (num.log2 : Int) - (den.log2 : Int)
  if powLe num den e then e else e - 1

/-- The value nearest to `± num / den`. A significand has 53 bits, and none counts units smaller
than `2 ^ -1074`. -/
def ofRatio (neg : Bool) (num den : Nat) : Number :=
  if num = 0 ∨ den = 0 then zero neg
  else
    let q := max (binaryExponent num den - 52) (-1074)
    match q with
    | .ofNat e => scaled neg (divRound num (den * twoPow e)) q
    | .negSucc k => scaled neg (divRound (num * twoPow (k + 1)) den) q

/-- The value nearest to an integer; below `2 ^ 53` every integer is one. -/
def ofInt (n : Int) : Number :=
  if n.natAbs < twoPow 53 then .whole n else ofRatio (n < 0) n.natAbs 1

/-- The value nearest to `± n * 10 ^ e`. Far outside the format's range the power is not formed. -/
def ofDecimal (neg : Bool) (n : Nat) (e : Int) : Number :=
  if n = 0 then zero neg
  else if e = 0 ∧ n < twoPow 53 then .whole (signed neg n)
  else
    let top : Int := ((Nat.toDigits 10 n).length : Int) + e
    if 310 < top then .infinity neg
    else if top < -330 then zero neg
    else match e with
      | .ofNat k => ofRatio neg (n * tenPow k) 1
      | .negSucc k => ofRatio neg n (tenPow (k + 1))

/-- The sum with a count. -/
def plus (x : Number) (i : Nat) : Number :=
  match x with
  | .whole n => ofInt (n + i)
  | .negZero => ofInt i
  | .fraction neg m k =>
    let sum := signed neg m + (i * twoPow k : Nat)
    ofRatio (sum < 0) sum.natAbs (twoPow k)
  | .infinity neg => .infinity neg
  | .nan => .nan

/-- Whether the value is an integer; the zero with a minus sign is one. -/
def isInteger : Number → Bool
  | .whole _ | .negZero => true
  | _ => false

/-- Whether a number is the one that is no number. -/
def isNan (x : Number) : Bool :=
  x = .nan

/-- Whether a number is neither an infinity nor the one that is no number. -/
def isFinite : Number → Bool
  | .infinity _ | .nan => false
  | _ => true

/-- Whether a number is less than zero. Neither zero is. -/
def isNegative : Number → Bool
  | .whole n => n < 0
  | .fraction neg _ _ | .infinity neg => neg
  | _ => false

/-- Whether a number is greater than zero. Neither zero is. -/
def isPositive : Number → Bool
  | .whole n => 0 < n
  | .fraction neg _ _ | .infinity neg => !neg
  | _ => false

/-- Numeric equality: the two zeros are equal, and no number equals nothing, itself included. -/
def same : Number → Number → Bool
  | .nan, _ | _, .nan => false
  | .negZero, y => y = .negZero || y = .whole 0
  | x, .negZero => x = .whole 0
  | x, y => x = y

/-- The number of the other sign. -/
def negated : Number → Number
  | .whole n => if n = 0 then .negZero else .whole (-n)
  | .negZero => .whole 0
  | .fraction neg m k => .fraction (!neg) m k
  | .infinity neg => .infinity (!neg)
  | .nan => .nan

end Number

end ParamForm
