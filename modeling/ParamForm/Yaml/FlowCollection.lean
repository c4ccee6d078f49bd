import ParamForm.Yaml.Mapping
import ParamForm.Yaml.Reader

/-!
# Flow collections

Sequences in brackets and mappings in braces, with commas between their entries. An entry of a
sequence may be a pair, which is a mapping of its own.
-/

namespace ParamForm.Yaml

/-- What is read between two commas: a key or an element with its tag and mark, and the value of a
pair if it is one. -/
structure FlowEntry where
  tag : Option String
  key : Linked
  value : Option Linked
  mark : Mark

/-- Reads what stands between two commas of a flow collection. -/
def flowEntry (child : Reader) (floor : Nat) (c : Cursor) :
    Except Fault (FlowEntry × Cursor) := do
  let request : Request := ⟨floor + 1, .flowIn, false, true⟩
  let explicit := startsWith (· = '?') c.rest && startsWith isSpacing (c.rest.drop 1)
  let c := if explicit then c.next.token else c
  let (key, d) ← child request c
  let d := d.token
  if (explicit || d.line = c.line) && startsWith (· = ':') d.rest then
    let (value, e) ← child request d.next.token
    .ok (⟨key.tag, key.value, some value.value, c.mark⟩, e)
  else
    .ok (⟨key.tag, key.value, if explicit then some (.leaf .null) else none, c.mark⟩, d)

/-- Reads the entries of a flow collection into what was collected, up to a closing bracket;
`entries` bounds their number. -/
def flowEntries {α : Type} (child : Reader) (floor : Nat) (close : Char)
    (add : α → FlowEntry → Cursor → Except Fault (α × Cursor)) (acc : α) (c : Cursor) :
    Nat → Except Fault (α × Cursor)
  | 0 => c.fail .streamEndsInFlow
  | entries + 1 => do
    if c.rest.isEmpty then c.fail .streamEndsInFlow
    let c := c.token
    if startsWith (· = close) c.rest then .ok (acc, c.next)
    else if startsWith (· = ',') c.rest then c.fail .contentMissing
    else
      let (entry, d) ← flowEntry child floor c
      let (acc, e) ← add acc entry d
      let e := e.token
      match e.rest with
      | [] => e.fail .streamEndsInFlow
      | ch :: _ =>
        if ch = ',' then flowEntries child floor close add acc e.next entries
        else if ch = close then .ok (acc, e.next)
        else e.fail .commaMissing

/-- Adds an entry to a flow mapping; one without a value has null. -/
def addPair (slot : Option Nat) (m : MappingState) (entry : FlowEntry) (c : Cursor) :
    Except Fault (MappingState × Cursor) := do
  let (m, d) ← m.storeTagged entry.tag entry.key (entry.value.getD (.leaf .null)) entry.mark c
  .ok (m, d.revise slot (.record m.fields))

/-- Adds an entry to a flow sequence, the last element first; a pair is a mapping of its own. -/
def addElement (slot : Option Nat) (items : List Linked) (entry : FlowEntry) (c : Cursor) :
    Except Fault (List Linked × Cursor) := do
  let (v, d) ← match entry.value with
    | some v => do
      let (m, d) ← MappingState.storeTagged {} entry.tag entry.key v entry.mark c
      .ok (.record m.fields, d)
    | none => .ok (entry.key, c)
  .ok (v :: items, d.revise slot (.list (v :: items).reverse))

/-- A flow collection, if one begins here. -/
def flowCollection? (child : Reader) (floor : Nat) (anchor : Option String) (c : Cursor) :
    Except Fault (Option (Content × Cursor)) := do
  let bound := c.rest.length + 1
  match c.rest with
  | '[' :: _ =>
    let (slot, d) := c.next.bindOpen anchor (.list [])
    let (items, d) ← flowEntries child floor ']' (addElement slot) [] d bound
    .ok (some (⟨some .sequence, .list items.reverse⟩, d.close slot anchor (.list items.reverse)))
  | '\x7b' :: _ =>
    let (slot, d) := c.next.bindOpen anchor (.record [])
    let (m, d) ← flowEntries child floor '\x7d' (addPair slot) {} d bound
    .ok (some (⟨some .mapping, .record m.fields⟩, d.close slot anchor (.record m.fields)))
  | _ => .ok none

end ParamForm.Yaml
