import ParamForm.Yaml.Reader

/-!
# Block sequences

Sequences whose entries stand below each other, each after a hyphen. All hyphens stand in the column
of the first one; tabs are no indentation.
-/

namespace ParamForm.Yaml

/-- Stops if a tab was stepped over on the line of an entry. -/
def checkTab (c : Cursor) : Except Fault Unit :=
  match c.tab with
  | some position => { c with position := position }.fail .tabInIndentation
  | none => .ok ()

/-- Whether an entry of a block collection is followed by what cannot be its next entry: something
on the line of the entry, or on a line that is indented deeper. -/
def isMisplaced (indent line : Nat) (c : Cursor) : Bool :=
  (c.line = line || indent < c.indent) && !c.rest.isEmpty

/-- Whether the entry of a block sequence begins here. -/
def startsEntry (cs : List Char) : Bool :=
  startsWith (· = '-') cs && startsWith isSpacing (cs.drop 1)

/-- Reads the entries of a block sequence at a column, the last one first; `entries` bounds their
number. -/
def sequenceEntries (child : Reader) (column : Nat) (slot : Option Nat) (items : List Linked)
    (c : Cursor) : Nat → Except Fault (List Linked × Cursor)
  | 0 => .ok (items, c)
  | entries + 1 => do
    let c := c.revise slot (.list items.reverse)
    if c.rest.isEmpty then return (items, c)
    checkTab c
    if !startsEntry c.rest then return (items, c)
    let (breaks, d) := c.next.separation true
    if breaks ≠ 0 && d.indent ≤ column then
      sequenceEntries child column slot (.leaf .null :: items) d entries
    else
      let (node, e) ← child ⟨column + 1, .blockIn, false, true⟩ d
      let e := e.token
      if isMisplaced column d.line e then e.fail .badEntryIndentation
      else if e.indent < column then .ok (node.value :: items, e)
      else sequenceEntries child column slot (node.value :: items) e entries

/-- A block sequence, if one begins here. -/
def blockSequence? (child : Reader) (anchor : Option String) (c : Cursor) :
    Except Fault (Option (Content × Cursor)) :=
  if c.tab.isNone && startsEntry c.rest then do
    let (slot, c) := c.bindOpen anchor (.list [])
    let (items, d) ← sequenceEntries child c.column slot [] c (c.rest.length + 1)
    .ok (some (⟨some .sequence, .list items.reverse⟩, d.close slot anchor (.list items.reverse)))
  else .ok none

end ParamForm.Yaml
