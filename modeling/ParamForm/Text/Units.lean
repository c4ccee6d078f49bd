/-!
# Text by UTF-16 units

Lengths, positions and order of texts count UTF-16 code units: a character above `U+FFFF` is two
units, a high surrogate and a low one (`charUnits`), and `ofUnits` puts the pairs together again.
-/

namespace ParamForm.Text

/-- The UTF-16 units of a character. -/
def charUnits (c : Char) : List Nat :=
  if c.toNat < 0x10000 then [c.toNat]
  else [0xD800 + (c.toNat - 0x10000) / 0x400, 0xDC00 + (c.toNat - 0x10000) % 0x400]

/-- How many units a character is. -/
def charWidth (c : Char) : Nat :=
  if c.toNat < 0x10000 then 1 else 2

/-- The UTF-16 code units of a text. -/
def units (cs : List Char) : List Nat :=
  cs.flatMap charUnits

/-- The length in units. -/
def width : List Char → Nat
  | [] => 0
  | c :: cs => charWidth c + width cs

/-- Whether a unit is the first one of a pair. -/
def isHigh (u : Nat) : Bool :=
  0xD800 ≤ u && u < 0xDC00

/-- Whether a unit is the second one of a pair. -/
def isLow (u : Nat) : Bool :=
  0xDC00 ≤ u && u < 0xE000

/-- The character of a unit; a surrogate that stands alone becomes the replacement character. -/
def unitChar (u : Nat) : Char :=
  if h : u.isValidChar then Char.ofNatAux u h else '\uFFFD'

/-- The text of a run of units. -/
def ofUnits : List Nat → List Char
  | [] => []
  | [u] => [unitChar u]
  | u :: v :: rest =>
    if isHigh u && isLow v then
      unitChar (0x10000 + (u - 0xD800) * 0x400 + (v - 0xDC00)) :: ofUnits rest
    else unitChar u :: ofUnits (v :: rest)

/-- The order of texts, unit by unit. -/
def compareUnits (a b : String) : Ordering :=
  List.compareLex compare (units a.toList) (units b.toList)

end ParamForm.Text
