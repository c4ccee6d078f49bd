import ParamForm.Yaml.Cursor

/-!
# Plain scalars

Scalars without quotes. A line of one ends before `: `, before ` #`, and inside a flow collection
before a flow indicator; lines that are indented enough go on with it.
-/

namespace ParamForm.Yaml

/-- Whether a character may be part of a document. -/
def isPrintable (c : Char) : Bool :=
  let n := c.toNat
  !(n ≤ 0x08 || n = 0x0B || n = 0x0C || (0x0E ≤ n && n ≤ 0x1F) || (0x7F ≤ n && n ≤ 0x84)
    || (0x86 ≤ n && n ≤ 0x9F) || n = 0xFFFE || n = 0xFFFF)

/-- Stops at a place if a run before it holds a character that no document may. -/
def checkPrintable (run : List Char) (c : Cursor) : Except Fault Unit :=
  if run.all isPrintable then .ok () else c.fail .notPrintable

/-- The characters that begin something else than a plain scalar. -/
def indicators : List Char :=
  ['#', '&', '*', '!', '|', '>', '\x27', '"', '%', '@', '\x60']

/-- Whether a plain scalar may begin a text. -/
def startsPlain (inFlow : Bool) : List Char → Bool
  | [] => false
  | c :: rest =>
    if isSpacing c || isFlowIndicator c || indicators.contains c then false
    else if c = '?' || c = '-' then
      !(startsWith isSpacing rest || (inFlow && startsWith isFlowIndicator rest))
    else true

/-- Whether a line of a plain scalar ends before a text; `blankBefore` tells of the character before
that text. -/
def plainEnds (inFlow blankBefore : Bool) : List Char → Bool
  | [] => true
  | c :: rest =>
    if c = ':' then startsWith isSpacing rest || (inFlow && startsWith isFlowIndicator rest)
    else if c = '#' then blankBefore
    else isBreak c || (inFlow && isFlowIndicator c)

/-- The characters of a plain scalar on one line, blanks after them included. -/
def plainRun (inFlow blankBefore : Bool) : List Char → List Char
  | [] => []
  | c :: rest =>
    if plainEnds inFlow blankBefore (c :: rest) then []
    else c :: plainRun inFlow (isWhite c) rest

/-- Whether a plain scalar goes on at the first character of a later line. -/
def continuesPlain (inFlow : Bool) (c : Cursor) : Bool :=
  !(plainEnds inFlow true c.rest || c.atMark)

/-- Reads a plain scalar from a line of it on. A later line belongs to it if it is indented by
`indent` at least; `lines` bounds their number. -/
def plainLines (indent : Nat) (inFlow : Bool) (c : Cursor) :
    Nat → Except Fault (List Char × Cursor)
  | 0 => .ok ([], c)
  | lines + 1 => do
    let run := plainRun inFlow true c.rest
    let rest := c.rest.drop run.length
    let text := trimmedEnd run
    let ended := c.past run rest
    if startsWith isBreak rest then
      let (breaks, d) := ended.separation false
      if indent ≤ d.indent then
        checkPrintable text d
        if continuesPlain inFlow d then
          let (more, e) ← plainLines indent inFlow d lines
          .ok (text ++ folded breaks ++ more, e)
        else .ok (text, d)
      else
        let e := { c.past text (c.rest.drop text.length) with tab := d.tab }
        checkPrintable text e
        .ok (text, e)
    else
      checkPrintable text ended
      .ok (text, ended)

/-- A plain scalar, if one begins here. -/
def plain? (indent : Nat) (inFlow : Bool) (c : Cursor) :
    Except Fault (Option (List Char × Cursor)) :=
  if startsPlain inFlow c.rest && continuesPlain inFlow c then
    (plainLines indent inFlow c (c.rest.length + 1)).map some
  else .ok none

end ParamForm.Yaml
