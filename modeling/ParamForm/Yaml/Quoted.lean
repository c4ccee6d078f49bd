import ParamForm.Number.Literal
import ParamForm.Yaml.Cursor

/-!
# Quoted scalars

Scalars in single quotes, where a quote is written twice, and in double quotes, where a backslash
begins an escape. Both may go on over line ends, which fold, and the blanks around which are no part
of the scalar.
-/

namespace ParamForm.Yaml

/-- Whether a character may stand inside quotes as it is. -/
def isQuotable (c : Char) : Bool :=
  c = '\t' || 0x20 ≤ c.toNat

/-- Stops at a place if a run before it holds a character that must not stand inside quotes. -/
def checkQuotable (run : List Char) (c : Cursor) : Except Fault Unit :=
  if run.all isQuotable then .ok () else c.fail .notJsonCharacter

/-- Reads a scalar in single quotes, from after a quote on; `parts` bounds the number of its parts
between quotes and line ends. -/
def singleParts (c : Cursor) : Nat → Except Fault (List Char × Cursor)
  | 0 => c.fail (.streamEndsInQuotes .single)
  | parts + 1 => do
    if c.atMark then c.fail (.documentEndsInQuotes .single)
    let (run, rest) := c.rest.span fun ch => ch ≠ '\x27' && !isBreak ch
    let ended := c.past run rest
    match rest with
    | [] => ended.fail (.streamEndsInQuotes .single)
    | ch :: more =>
      checkQuotable run ended
      if ch = '\x27' then
        match more with
        | '\x27' :: more =>
          let (text, d) ← singleParts (ended.past [ch, ch] more) parts
          .ok (run ++ ch :: text, d)
        | _ => .ok (run, ended.past [ch] more)
      else
        let (breaks, d) := ended.separation false
        let (text, e) ← singleParts d parts
        .ok (trimmedEnd run ++ folded breaks ++ text, e)

/-- The character that an escape of one letter stands for. -/
def letterEscape? : Char → Option Char
  | '0' => some '\x00'
  | 'a' => some '\x07'
  | 'b' => some '\x08'
  | 't' => some '\t'
  | '\t' => some '\t'
  | 'n' => some '\n'
  | 'v' => some '\x0b'
  | 'f' => some '\x0c'
  | 'r' => some '\r'
  | 'e' => some '\x1b'
  | ' ' => some ' '
  | '"' => some '"'
  | '/' => some '/'
  | '\\' => some '\\'
  | 'N' => some '\u0085'
  | '_' => some '\u00a0'
  | 'L' => some '\u2028'
  | 'P' => some '\u2029'
  | _ => none

/-- The number of digits of an escape by number. -/
def numberEscape? : Char → Option Nat
  | 'x' => some 2
  | 'u' => some 4
  | 'U' => some 8
  | _ => none

/-- The units of a code. Codes have 32 bits with a sign, so that the upper half of them is negative,
and units wrap around. -/
def codeUnits (code : Nat) : List Nat :=
  if code ≤ 0xFFFF ∨ 0x80000000 ≤ code then [code % 0x10000]
  else
    let offset := code - 0x10000
    [(0xD800 + offset / 0x400) % 0x10000, 0xDC00 + offset % 0x400]

/-- Reads hexadecimal digits after the number that those before them write. -/
def hexDigits (code : Nat) (c : Cursor) : Nat → Except Fault (Nat × Cursor)
  | 0 => .ok (code, c)
  | digits + 1 =>
    match c.rest.head?.bind digitValue? with
    | some d => hexDigits (code * 16 + d) c.next digits
    | none => c.fail .hexDigitExpected

/-- Reads an escape from after its backslash on. An escaped line end stands for nothing. -/
def escape (c : Cursor) : Except Fault (List Nat × Cursor) :=
  match c.rest with
  | [] => c.fail .unknownEscape
  | ch :: _ =>
    if isBreak ch then .ok ([], (c.separation false).2)
    else match letterEscape? ch, numberEscape? ch with
      | some e, _ => .ok (Text.charUnits e, c.next)
      | none, some digits => do
        let (code, d) ← hexDigits 0 c.next digits
        .ok (codeUnits code, d)
      | none, none => c.fail .unknownEscape

/-- Reads a scalar in double quotes, from after a quote, an escape or a line end on, as units. -/
def doubleParts (c : Cursor) : Nat → Except Fault (List Nat × Cursor)
  | 0 => c.fail (.streamEndsInQuotes .double)
  | parts + 1 => do
    if c.atMark then c.fail (.documentEndsInQuotes .double)
    let (run, rest) := c.rest.span fun ch => ch ≠ '"' && ch ≠ '\\' && !isBreak ch
    let ended := c.past run rest
    match rest with
    | [] => ended.fail (.streamEndsInQuotes .double)
    | ch :: more =>
      checkQuotable run ended
      if ch = '"' then .ok (Text.units run, ended.past [ch] more)
      else if ch = '\\' then
        let (escaped, d) ← escape (ended.past [ch] more)
        let (text, e) ← doubleParts d parts
        .ok (Text.units run ++ escaped ++ text, e)
      else
        let (breaks, d) := ended.separation false
        let (text, e) ← doubleParts d parts
        .ok (Text.units (trimmedEnd run) ++ Text.units (folded breaks) ++ text, e)

/-- A quoted scalar, if one begins here. -/
def quoted? (c : Cursor) : Except Fault (Option (List Char × Cursor)) :=
  match c.rest with
  | '\x27' :: _ => (singleParts c.next (c.rest.length + 1)).map some
  | '"' :: _ =>
    (doubleParts c.next (c.rest.length + 1)).map fun (text, d) => some (Text.ofUnits text, d)
  | _ => .ok none

end ParamForm.Yaml
