import ParamForm.Text.Units
import ParamForm.Yaml.Linked
import ParamForm.Yaml.Problem

/-!
# Cursors

A place in a text (`Cursor`): the rest of the text, where that begins, and the names that the
document has given so far. Lines end at a line feed, a carriage return, or both in that order, and
`Cursor.separation` steps over blanks, line ends and comments between two tokens.
-/

namespace ParamForm.Yaml

/-- Whether a character is a blank or a tab. -/
def isWhite (c : Char) : Bool :=
  c = ' ' || c = '\t'

/-- Whether a character ends a line. -/
def isBreak (c : Char) : Bool :=
  c = '\n' || c = '\r'

/-- Whether a character separates words. -/
def isSpacing (c : Char) : Bool :=
  isWhite c || isBreak c

/-- Whether a character has a meaning of its own in flow collections. -/
def isFlowIndicator (c : Char) : Bool :=
  c = ',' || c = '[' || c = ']' || c = '\x7b' || c = '\x7d'

/-- A run without the blanks at its end. -/
def trimmedEnd (run : List Char) : List Char :=
  (run.reverse.dropWhile isWhite).reverse

/-- Whether a text begins with a character of a class; at its end it does not. -/
def startsWith (p : Char → Bool) : List Char → Bool
  | [] => false
  | c :: _ => p c

/-- Whether a text begins with `---` or `...` and then a blank or its end. -/
def startsMark : List Char → Bool
  | a :: b :: c :: rest =>
    (a = '-' || a = '.') && b = a && c = a && (rest.isEmpty || startsWith isSpacing rest)
  | _ => false

/-- A place in a text. Positions count UTF-16 units. `indent` is the number of spaces that began the
line when it was entered, and `tab` the place of the first tab that was stepped over on it. `merged`
is the cost of what was merged into mappings so far. -/
structure Cursor where
  rest : List Char
  position : Nat := 0
  line : Nat := 0
  lineStart : Nat := 0
  indent : Nat := 0
  tab : Option Nat := none
  names : Names := {}
  handles : List (String × String) := []
  merged : Nat := 0
  deriving Inhabited

/-- A place to report a key at. -/
structure Mark where
  position : Nat
  line : Nat
  lineStart : Nat
  deriving DecidableEq, Inhabited

namespace Cursor

/-- The place after a run of characters that the rest begins with. -/
def past (c : Cursor) (run rest : List Char) : Cursor :=
  { c with rest := rest, position := c.position + Text.width run }

/-- The cursor after the next character. -/
def next (c : Cursor) : Cursor :=
  match c.rest with
  | [] => c
  | ch :: rest => c.past [ch] rest

/-- The units between the start of the line and the cursor. -/
def column (c : Cursor) : Nat :=
  c.position - c.lineStart

/-- Where a cursor stands. -/
def mark (c : Cursor) : Mark :=
  ⟨c.position, c.line, c.lineStart⟩

/-- Whether a document mark begins a line here. -/
def atMark (c : Cursor) : Bool :=
  c.position = c.lineStart && startsMark c.rest

/-- A problem at the cursor, with lines and columns counted from one. -/
def problem (c : Cursor) (reason : Reason) : Fault :=
  .problem ⟨reason, c.line + 1, (c.position : Int) - c.lineStart + 1⟩

/-- Reading ends with a problem at the cursor. -/
def fail {α : Type} (c : Cursor) (reason : Reason) : Except Fault α :=
  .error (c.problem reason)

/-- Gives a name to a value, if there is one to give. -/
def bind (c : Cursor) (anchor : Option String) (v : Linked) : Cursor :=
  match anchor with
  | some name => { c with names := c.names.give name v }
  | none => c

/-- Opens a collection of which nothing is read yet. If it has a name, this is its number. -/
def bindOpen (c : Cursor) (anchor : Option String) (v : Collection) : Option Nat × Cursor :=
  match anchor with
  | some name => (some c.names.collections.length, { c with names := c.names.opened name v })
  | none => (none, c)

/-- Notes what a collection with a name has become. -/
def revise (c : Cursor) (slot : Option Nat) (v : Collection) : Cursor :=
  match slot with
  | some n => { c with names := c.names.revised n v }
  | none => c

/-- Closes a collection: its name, if it has one, stands for it as a whole now. -/
def close (c : Cursor) (slot : Option Nat) (anchor : Option String) (v : Collection) : Cursor :=
  (c.revise slot v).bind anchor v.value

/-- The place after the characters of a class that the rest begins with. -/
def skip (p : Char → Bool) (c : Cursor) : Cursor :=
  c.past (c.rest.takeWhile p) (c.rest.dropWhile p)

/-- The place after the line end that the rest begins with, if it begins with one. -/
def lineBreak? (c : Cursor) : Option Cursor :=
  let entered (run rest : List Char) : Cursor :=
    let d := c.past run rest
    { d with line := c.line + 1, lineStart := d.position, tab := none }
  match c.rest with
  | '\r' :: '\n' :: rest => some (entered ['\r', '\n'] rest)
  | '\r' :: rest => some (entered ['\r'] rest)
  | '\n' :: rest => some (entered ['\n'] rest)
  | _ => none

/-- The place after blanks; the first tab of a line is noted. -/
def skipWhite (c : Cursor) : Cursor :=
  let white := c.rest.takeWhile isWhite
  let spaces := (white.takeWhile (· = ' ')).length
  let tab := c.tab <|> (if spaces < white.length then some (c.position + spaces) else none)
  { c.skip isWhite with tab := tab }

/-- The place after a comment, if one begins here. -/
def skipComment (c : Cursor) : Cursor :=
  if startsWith (· = '#') c.rest then c.skip fun ch => !isBreak ch else c

/-- The place after a line end and the spaces that begin the next line, whose number is that line's
indentation. -/
def newLine? (c : Cursor) : Option Cursor :=
  c.lineBreak?.map fun d =>
    { d.skip (· = ' ') with indent := (d.rest.takeWhile (· = ' ')).length }

/-- Steps over blanks and line ends, and over comments if they are allowed; gives the number of line
ends. At most `steps` of them are passed. -/
def separationIn (comments : Bool) (c : Cursor) : Nat → Nat × Cursor
  | 0 => (0, c)
  | steps + 1 =>
    let d := if comments then c.skipWhite.skipComment else c.skipWhite
    match d.newLine? with
    | none => (0, d)
    | some e =>
      let (breaks, f) := separationIn comments e steps
      (breaks + 1, f)

/-- Steps over all blanks and line ends, and over comments if they are allowed. -/
def separation (c : Cursor) (comments : Bool) : Nat × Cursor :=
  separationIn comments c (c.rest.length + 1)

/-- The next token, past blanks, line ends and comments. -/
def token (c : Cursor) : Cursor :=
  (c.separation true).2

end Cursor

/-- What a gap of line ends inside a scalar stands for: one is a space, and of several the first is
dropped. -/
def folded : Nat → List Char
  | 0 => []
  | 1 => [' ']
  | n + 1 => List.replicate n '\n'

end ParamForm.Yaml
