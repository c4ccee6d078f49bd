import ParamForm.Calendar
import ParamForm.Yaml.CoreType
import ParamForm.Yaml.Plain

/-!
# Writing of documents

The block style text of a value. Levels are indented by two spaces, and a sequence or mapping that
is an element of a sequence begins on the line of its hyphen. A text is written plain if it is read
back as itself, and otherwise in quotes, or line by line if it holds line ends. Fields that hold
nothing are left out, and in a list such a place is null.
-/

namespace ParamForm.Yaml

/-- Whether a character is written as it is. -/
def isWritable (c : Char) : Bool :=
  let n := c.toNat
  (0x20 ≤ n && n ≤ 0x7E) || (0xA1 ≤ n && n ≤ 0xD7FF && n ≠ 0x2028 && n ≠ 0x2029)
    || (0xE000 ≤ n && n ≤ 0xFFFD && n ≠ 0xFEFF) || 0x10000 ≤ n

/-- The characters that a plain scalar is not begun with. -/
def isWritableFirst (c : Char) : Bool :=
  isWritable c && !isWhite c && !isFlowIndicator c && !indicators.contains c
    && !(['-', '?', ':', '='].contains c)

/-- Whether a character may follow another one in a plain scalar. -/
def mayFollow (before : Option Char) (c : Char) : Bool :=
  if c = '#' then (before.map fun b => isWritable b && !isWhite b).getD false
  else before ≠ some ':' || !isWhite c

/-- Whether each character may come after the one before it in a plain scalar. -/
def allMayFollow (before : Option Char) : List Char → Bool
  | [] => true
  | c :: cs => mayFollow before c && allMayFollow (some c) cs

/-- Whether a text of characters that are written as they are reads as one plain scalar. -/
def isPlainText (cs : List Char) : Bool :=
  startsWith isWritableFirst cs && (cs.getLast?.map fun c => !isWhite c && c ≠ ':').getD false
    && allMayFollow none cs

/-- Words that other readers take for booleans. -/
def booleanWords : List String :=
  ["y", "Y", "yes", "Yes", "YES", "on", "On", "ON", "n", "N", "no", "No", "NO", "off", "Off", "OFF"]

/-- A place of a number in base sixty. -/
def isPlace (c : Char) : Bool :=
  c.isDigit || c = '_'

/-- The rest of a number in base sixty: whether its group has a place yet, and whether there was a
colon. -/
def base60From (places colon : Bool) : List Char → Bool
  | [] => places && colon
  | c :: cs =>
    if isPlace c then base60From true colon cs
    else if c = ':' then places && base60From false true cs
    else c = '.' && places && colon && cs.all isPlace

/-- Whether other readers take a text for a number in base sixty. -/
def isBase60 (cs : List Char) : Bool :=
  base60From false false (signed cs).2

/-- The ways to write a scalar. -/
inductive ScalarStyle where
  | plain
  | single
  | double
  | literal
  deriving DecidableEq, Inhabited

/-- The style of a text; a key stays on one line. -/
def ScalarStyle.ofText (isKey : Bool) (cs : List Char) : ScalarStyle :=
  if cs.isEmpty || booleanWords.contains (String.ofList cs) || isBase60 cs then .single
  else if !cs.all fun c => isWritable c || (c = '\n' && !isKey) then .double
  else if cs.contains '\n' then .literal
  else if isPlainText cs && (implicit? (.leaf (.text (String.ofList cs)))).isNone then .plain
  else .single

/-- A number in base sixteen in upper case, with zeros before it up to a width. -/
def hexText (width n : Nat) : List Char :=
  let digits := (Nat.toDigits 16 n).map Char.toUpper
  List.replicate (width - digits.length) '0' ++ digits

/-- A character inside double quotes. -/
def escaped (c : Char) : List Char :=
  match c with
  | '\x00' => ['\\', '0']
  | '\x07' => ['\\', 'a']
  | '\x08' => ['\\', 'b']
  | '\t' => ['\\', 't']
  | '\n' => ['\\', 'n']
  | '\x0b' => ['\\', 'v']
  | '\x0c' => ['\\', 'f']
  | '\r' => ['\\', 'r']
  | '\x1b' => ['\\', 'e']
  | '"' => ['\\', '"']
  | '\\' => ['\\', '\\']
  | '\u0085' => ['\\', 'N']
  | '\u00a0' => ['\\', '_']
  | '\u2028' => ['\\', 'L']
  | '\u2029' => ['\\', 'P']
  | c =>
    let n := c.toNat
    if isWritable c then [c]
    else if n ≤ 0xFF then '\\' :: 'x' :: hexText 2 n
    else if n ≤ 0xFFFF then '\\' :: 'u' :: hexText 4 n
    else '\\' :: 'U' :: hexText 8 n

/-- Lines with spaces before each that is not empty; `atStart` tells whether a line begins here. -/
def indented (spaces : Nat) (atStart : Bool) : List Char → List Char
  | [] => []
  | c :: cs =>
    if c = '\n' then c :: indented spaces true cs
    else (if atStart then List.replicate spaces ' ' else []) ++ c :: indented spaces false cs

/-- The header of a literal scalar: its indentation where a reader could not see it, and what
becomes of the line ends after it. -/
def literalHeader (cs : List Char) : List Char :=
  let indentation := if startsWith (· = ' ') (cs.dropWhile (· = '\n')) then ['2'] else []
  let chomping := match cs.reverse with
    | ['\n'] | '\n' :: '\n' :: _ => ['+']
    | '\n' :: _ => []
    | _ => ['-']
  '|' :: (indentation ++ chomping)

/-- A text without one line end at its end. -/
def withoutLastBreak (cs : List Char) : List Char :=
  match cs.reverse with
  | '\n' :: front => front.reverse
  | _ => cs

/-- The text of a scalar in the style that is chosen for it. -/
def scalarText (level : Nat) (isKey : Bool) (cs : List Char) : List Char :=
  match ScalarStyle.ofText isKey cs with
  | .plain => cs
  | .single => '\x27' :: (cs.flatMap (fun c => if c = '\x27' then [c, c] else [c]) ++ ['\x27'])
  | .double => '"' :: (cs.flatMap escaped ++ ['"'])
  | .literal =>
    literalHeader cs ++ '\n' :: withoutLastBreak (indented (2 * max 1 level) true cs)

/-- A number. One with an exponent gets a point before it, unless it is an integer. -/
def numberText (x : Number) : List Char :=
  match x with
  | .nan => ".nan".toList
  | .infinity neg => if neg then "-.inf".toList else ".inf".toList
  | .negZero => "-0.0".toList
  | .whole _ => x.text
  | .fraction .. =>
    match x.text.span fun c => c = '-' || c.isDigit with
    | (front, 'e' :: back) => front ++ '.' :: 'e' :: back
    | (front, back) => front ++ back

/-- The end of a line and the indentation of the next one. -/
def nextLine (level : Nat) : List Char :=
  '\n' :: List.replicate (2 * level) ' '

/-- A text after an indicator; a blank comes between them unless the text begins a new line. -/
def attached (indicator : Char) (text : List Char) : List Char :=
  if startsWith (· = '\n') text then indicator :: text else indicator :: ' ' :: text

/-- A key that is too long to stand before a colon on its line. -/
def isLongKey (key : List Char) : Bool :=
  1024 < Text.width key

/-- The text of a pair of a mapping. -/
def pairText (level : Nat) (key value : List Char) : List Char :=
  if isLongKey key then attached '?' key ++ nextLine level ++ attached ':' value
  else key ++ attached ':' value

mutual

/-- The text of a value at a level, if it holds something that can be written; a compact one begins
on the line of what stands before it. What is written are overrides that were accepted: they hold no
binary data (`Value.jsonData?` makes fields of its bytes), and so its notation is left out. -/
def nodeText? (level : Nat) (compact : Bool) : Value → Option (List Char)
  | .absent | .bytes _ => none
  | .null => some "null".toList
  | .bool b => some (if b then "true".toList else "false".toList)
  | .number x => some (numberText x)
  | .text s => some (scalarText level false s.toList)
  | .date ms => some (Calendar.timestamp ms)
  | .list vs =>
    let text := itemsText level compact vs
    some (if text.isEmpty then "[]".toList else text)
  | .record fields =>
    let text := fieldsText level compact fields
    some (if text.isEmpty then ['\x7b', '\x7d'] else text)

/-- The entries of a sequence, the first one on the present line or not. -/
def itemsText (level : Nat) (here : Bool) : List Value → List Char
  | [] => []
  | v :: vs =>
    (if here then [] else nextLine level)
      ++ attached '-' ((nodeText? (level + 1) true v).getD "null".toList)
      ++ itemsText level false vs

/-- The pairs of a mapping, the first one on the present line or not. -/
def fieldsText (level : Nat) (here : Bool) : List (String × Value) → List Char
  | [] => []
  | (name, v) :: fields =>
    let key := scalarText (level + 1) true name.toList
    match nodeText? (level + 1) (isLongKey key) v with
    | none => fieldsText level here fields
    | some text =>
      (if here then [] else nextLine level) ++ pairText level key text
        ++ fieldsText level false fields

end

/-- The document of a value. -/
def dump (v : Value) : String :=
  match nodeText? 0 true v with
  | some text => String.ofList (text ++ ['\n'])
  | none => ""

end ParamForm.Yaml
