import ParamForm.Yaml.Plain

/-!
# Block scalars

Scalars of whole lines below a header: `|` keeps the line ends and `>` folds them. The header may
say how far the lines are indented, and what becomes of the line ends after the last of them.
-/

namespace ParamForm.Yaml

/-- What becomes of the line ends after the text: all go, one stays, or all stay. -/
inductive Chomping where
  | strip
  | clip
  | keep
  deriving DecidableEq, Inhabited

/-- A header: the style, the chomping if it is given, and the indentation if it is given. -/
structure BlockHeader where
  folding : Bool
  chomping : Option Chomping := none
  indent : Option Nat := none
  deriving Inhabited

/-- Reads the indicators of a header. Each kind may occur once, so that three steps suffice. -/
def blockIndicators (floor : Nat) (h : BlockHeader) (c : Cursor) :
    Nat → Except Fault (BlockHeader × Cursor)
  | 0 => .ok (h, c)
  | steps + 1 =>
    match c.rest with
    | [] => .ok (h, c)
    | ch :: _ =>
      if ch = '+' ∨ ch = '-' then
        if h.chomping.isSome then c.fail .repeatedChomping
        else
          let chomping := if ch = '+' then Chomping.keep else .strip
          blockIndicators floor { h with chomping := some chomping } c.next steps
      else if ch = '0' then c.fail .zeroIndentation
      else if ch.isDigit then
        if h.indent.isSome then c.fail .repeatedIndentation
        else
          let indent := floor + (ch.toNat - '0'.toNat) - 1
          blockIndicators floor { h with indent := some indent } c.next steps
      else .ok (h, c)

/-- What is known while the lines are read: the indentation and whether it is settled, whether there
was a line yet, the empty lines since then, and whether that line began with a blank. -/
structure BlockState where
  indent : Nat
  settled : Bool
  begun : Bool := false
  empties : Nat := 0
  moreIndented : Bool := false

/-- The line ends before a line that begins with a blank or not. -/
def BlockState.gap (s : BlockState) (folding startsWhite : Bool) : List Char :=
  let all := List.replicate (if s.begun then 1 + s.empties else s.empties) '\n'
  if !folding || startsWhite then all
  else if s.moreIndented then List.replicate (s.empties + 1) '\n'
  else if s.empties = 0 then (if s.begun then [' '] else [])
  else List.replicate s.empties '\n'

/-- The line ends after the last line. -/
def BlockState.ending (s : BlockState) : Chomping → List Char
  | .strip => []
  | .clip => if s.begun then ['\n'] else []
  | .keep => List.replicate (if s.begun then 1 + s.empties else s.empties) '\n'

/-- The state after a line with text. -/
def BlockState.afterLine (s : BlockState) (folding startsWhite : Bool) : BlockState where
  indent := s.indent
  settled := true
  begun := true
  moreIndented := folding && startsWhite

/-- Enters the next line and steps over its indentation. -/
def BlockState.enter (s : BlockState) (c : Cursor) : BlockState × Cursor :=
  let spaces := (c.rest.takeWhile (· = ' ')).length
  let n := if s.settled then min spaces s.indent else spaces
  let d := { c.past (c.rest.take n) (c.rest.drop n) with indent := n }
  (if s.settled then s else { s with indent := max s.indent n }, d)

/-- Reads the lines of a block scalar from a line end on; `lines` bounds their number. A line that
is indented less ends it. The first line that is not empty settles the indentation, and must have
some. -/
def blockLines (folding : Bool) (chomping : Chomping) (s : BlockState) (c : Cursor) :
    Nat → Except Fault (List Char × Cursor)
  | 0 => .ok ([], c)
  | lines + 1 =>
    if c.rest.isEmpty then .ok ([], c)
    else match c.lineBreak? with
      | none => c.fail .lineBreakExpected
      | some d => do
        let (s, e) := s.enter d
        if startsWith isBreak e.rest then
          blockLines folding chomping { s with empties := s.empties + 1 } e lines
        else if !s.settled && s.indent = 0 then e.fail .missingIndentation
        else if e.indent < s.indent then .ok (s.ending chomping, e)
        else
          let startsWhite := startsWith isWhite e.rest
          let run := e.rest.takeWhile fun ch => !isBreak ch
          let ended := e.past run (e.rest.drop run.length)
          checkPrintable run ended
          let (text, f) ← blockLines folding chomping (s.afterLine folding startsWhite) ended lines
          .ok (s.gap folding startsWhite ++ run ++ text, f)

/-- A block scalar, if one begins here; its lines are indented by `floor` at least. -/
def block? (floor : Nat) (c : Cursor) : Except Fault (Option (List Char × Cursor)) :=
  match c.rest with
  | ch :: _ =>
    if ch = '|' ∨ ch = '>' then do
      let (h, d) ← blockIndicators floor ⟨ch = '>', none, none⟩ c.next 3
      let e := if startsWith isWhite d.rest then (d.skip isWhite).skipComment else d
      let s : BlockState := ⟨h.indent.getD floor, h.indent.isSome, false, 0, false⟩
      (blockLines h.folding (h.chomping.getD .clip) s e (e.rest.length + 1)).map some
    else .ok none
  | [] => .ok none

end ParamForm.Yaml
