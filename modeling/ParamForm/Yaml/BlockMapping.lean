import ParamForm.Yaml.Mapping
import ParamForm.Yaml.BlockSequence

/-!
# Block mappings

Mappings whose pairs stand below each other, in the column of the first key. A key is explicit,
after a question mark, or implicit, before a colon on its line. What looks like a first key and is
none is kept as a single node (`BlockMapping.Outcome`).
-/

namespace ParamForm.Yaml

/-- A block mapping while it is read: the place of its name among the names, the pairs so far, an
explicit key that waits for its value, the mark of the last key, and whether there was a key at
all. -/
structure BlockMapping where
  slot : Option Nat := none
  pairs : MappingState := {}
  waiting : Option Linked := none
  mark : Mark
  detected : Bool := false

namespace BlockMapping

/-- The mapping with other pairs, for its name too, and no key that waits. -/
def withPairs (b : BlockMapping) (pairs : MappingState) (c : Cursor) : BlockMapping × Cursor :=
  ({ b with pairs := pairs, waiting := none }, c.revise b.slot (.record pairs.fields))

/-- Gives a key that waits a null for its value. -/
def settle (b : BlockMapping) (c : Cursor) : Except Fault (BlockMapping × Cursor) :=
  match b.waiting with
  | none => .ok (b, c)
  | some key => do
    let pairs ← b.pairs.store key (.leaf .null) b.mark c
    .ok (b.withPairs pairs c)

/-- What became of an attempt to read a block mapping: a mapping, a single node that is no key, or
nothing. -/
inductive Outcome where
  | mapping (fields : Fields Linked)
  | single (node : Node)
  | nothing

/-- The end of a mapping: a key that waits for its value gets none. -/
def finish (b : BlockMapping) (c : Cursor) : Except Fault (Outcome × Cursor) := do
  let (b, c) ← b.settle c
  .ok (if b.detected then .mapping b.pairs.fields else .nothing, c)

/-- Whether an explicit key or value begins here, with the given indicator. -/
def startsExplicit (indicator : Char) (cs : List Char) : Bool :=
  startsWith (· = indicator) cs && startsWith isSpacing (cs.drop 1)

/-- What reading one key or value leads to: the mapping goes on, or there is none. -/
inductive Step where
  | pair (b : BlockMapping)
  | ended (b : BlockMapping)
  | single (node : Node)

/-- Reads a key after its question mark. It waits for its value. -/
def explicitKey (child : Reader) (column : Nat) (b : BlockMapping) (c : Cursor) :
    Except Fault (Step × Cursor) := do
  let (b, c) ← b.settle c
  let (node, d) ← child ⟨column + 1, .blockOut, true, true⟩ c.next
  .ok (.pair { b with waiting := some node.valueOrNull, mark := c.next.mark, detected := true }, d)

/-- Reads a value after its colon, for the key that waits for it. -/
def explicitValue (child : Reader) (column : Nat) (b : BlockMapping) (key : Linked) (c : Cursor) :
    Except Fault (Step × Cursor) := do
  let (node, d) ← child ⟨column + 1, .blockOut, true, true⟩ c.next
  let pairs ← b.pairs.store key node.valueOrNull b.mark d
  let (b, d) := b.withPairs pairs d
  .ok (.pair b, d)

/-- Reads a key with a colon after it on its line, and its value. -/
def implicitPair (child : Reader) (column floor : Nat) (b : BlockMapping) (c : Cursor) :
    Except Fault (Step × Cursor) := do
  let b := { b with mark := c.mark }
  let (key, d) ← child ⟨floor + 1, .flowOut, false, true⟩ c
  if !key.present then .ok (.ended b, d)
  else if d.line = c.line then
    let d := d.skip isWhite
    if startsWith (· = ':') d.rest then
      if !startsWith isSpacing d.next.rest then d.next.fail .blankMissing
      else
        let (b, d) ← b.settle d.next
        let (node, e) ← child ⟨column + 1, .blockOut, true, false⟩ d
        let (pairs, e) ← b.pairs.storeTagged key.tag key.value node.valueOrNull b.mark e
        let (b, e) := b.withPairs pairs e
        .ok (.pair { b with detected := true }, e)
    else if b.detected then d.fail .colonMissing
    else .ok (.single key, d)
  else if b.detected then d.fail .multilineKey
  else .ok (.single key, d)

/-- Reads the next key, the next value, or a key with its value. -/
def step (child : Reader) (column floor : Nat) (b : BlockMapping) (c : Cursor) :
    Except Fault (Step × Cursor) :=
  if startsExplicit '?' c.rest then b.explicitKey child column c
  else if startsExplicit ':' c.rest then
    match b.waiting with
    | some key => b.explicitValue child column key c
    | none => c.fail .keyMissing
  else b.implicitPair child column floor c

/-- Reads a block mapping at a column; `steps` bounds the number of its keys and values. -/
def read (child : Reader) (column floor : Nat) (b : BlockMapping) (c : Cursor) :
    Nat → Except Fault (Outcome × Cursor)
  | 0 => b.finish c
  | steps + 1 => do
    if c.rest.isEmpty then return ← b.finish c
    if b.waiting.isNone then checkTab c
    match ← b.step child column floor c with
    | (.ended b, d) => b.finish d
    | (.single node, d) => .ok (.single node, d)
    | (.pair b, d) =>
      let d := d.token
      if isMisplaced column c.line d then d.fail .badPairIndentation
      else if d.indent < column then b.finish d
      else b.read child column floor d steps

end BlockMapping

/-- A block mapping, if one begins here. -/
def blockMapping (child : Reader) (floor : Nat) (anchor : Option String) (c : Cursor) :
    Except Fault (BlockMapping.Outcome × Cursor) := do
  let (slot, c) := c.bindOpen anchor (.record [])
  let (outcome, d) ← BlockMapping.read child c.column floor { slot := slot, mark := c.mark } c
    (c.rest.length + 1)
  match outcome with
  | .mapping fields => .ok (outcome, d.close slot anchor (.record fields))
  | _ => .ok (outcome, d)

end ParamForm.Yaml
