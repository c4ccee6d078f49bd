import ParamForm.Value.Text
import ParamForm.Yaml.CoreType

/-!
# Mappings under construction

A mapping while its pairs are read. Keys of any type become texts (`keyText?`). A key may be given
once; the pairs that a merge key brings in yield to those that are given, before or after it. What
merge keys bring in is limited, over the whole text (`Cursor.charge`).
-/

namespace ParamForm.Yaml

/-- The text of an element of a list that is a key. -/
def keyItem? : Linked → Option (List Char)
  | .list _ | .link _ => none
  | .record _ => some "[object Object]".toList
  | .leaf .absent | .leaf .null => some []
  | .leaf v => v.text?

/-- The text of a key. A list is its elements with commas between them, and none of them may be a
list. -/
def keyText? (n : Names) (key : Linked) : Option String :=
  match n.target key with
  | .list items =>
    (items.mapM fun v => keyItem? (n.target v)).map fun texts =>
      String.ofList (Value.commaJoined texts)
  | .record _ => some "[object Object]"
  | .leaf v => v.text?.map String.ofList
  | .link _ => none

/-- The pairs that a merge key brings in with one source. -/
def mergeSource? : Linked → Option (Fields Linked)
  | .list items => some (Value.indexed items)
  | .record fields => some fields
  | .leaf v => if v.isObject then some (v.entries.map fun f => (f.1, .leaf f.2)) else none
  | .link _ => none

/-- How much may be merged in over a whole text. -/
def maxMerged : Nat := 10000

/-- How many sources a merge key may list. -/
def maxSources : Nat := 100

/-- Counts what a merge costs: one for each source and one for each of its pairs, even if they are
there already. -/
def Cursor.charge (c : Cursor) (cost : Nat) : Except Fault Cursor :=
  if maxMerged < c.merged + cost then c.fail .tooMuchMerged
  else .ok { c with merged := c.merged + cost }

/-- The fields so far, and the names of those that were merged in and may still be given. -/
structure MappingState where
  fields : Fields Linked := []
  merged : List String := []
  deriving Inhabited

namespace MappingState

/-- Merges in pairs whose names are not there yet. -/
def mergePairs (m : MappingState) (pairs : Fields Linked) : MappingState :=
  pairs.foldl (fun m f =>
    if Fields.has m.fields f.1 then m
    else ⟨Fields.insertNew f.1 f.2 m.fields, f.1 :: m.merged⟩) m

/-- Merges in sources one after another. -/
def mergeAll (m : MappingState) (c : Cursor) : List Linked → Except Fault (MappingState × Cursor)
  | [] => .ok (m, c)
  | v :: vs =>
    match mergeSource? (c.names.target v) with
    | none => c.fail .badMergeSource
    | some pairs => do
      let d ← c.charge (pairs.length + 1)
      (m.mergePairs pairs).mergeAll d vs

/-- Merges in the sources of a merge key: those of a list, or one. -/
def merge (m : MappingState) (c : Cursor) (v : Linked) : Except Fault (MappingState × Cursor) :=
  match c.names.target v with
  | .list items =>
    if maxSources < items.length then c.fail .tooManySources else m.mergeAll c items
  | v => m.mergeAll c [v]

/-- Whether a mapping has a name of its own, not only a merged one. -/
def isGiven (m : MappingState) (name : String) : Bool :=
  Fields.has m.fields name && !m.merged.contains name

/-- Sets the value of a name that was not given yet. -/
def set (m : MappingState) (name : String) (v : Linked) : MappingState :=
  ⟨Fields.put m.fields name v, m.merged.filter (· ≠ name)⟩

end MappingState

/-- Where a key that was given twice is reported: at its mark, except that what is zero there is
taken from the place that was reached. -/
def Cursor.back (c : Cursor) (mark : Mark) : Cursor :=
  let orElse (n m : Nat) : Nat := if n = 0 then m else n
  { c with
    position := orElse mark.position c.position
    line := orElse mark.line c.line
    lineStart := orElse mark.lineStart c.lineStart }

/-- Adds a pair of which the key was read at a mark and the value up to `c`. -/
def MappingState.store (m : MappingState) (key v : Linked) (mark : Mark) (c : Cursor) :
    Except Fault MappingState :=
  match keyText? c.names key with
  | none => c.fail .nestedListKey
  | some name =>
    if m.isGiven name then (c.back mark).fail .duplicateKey else .ok (m.set name v)

/-- Adds a pair of which the key may be a merge key, by its tag. -/
def MappingState.storeTagged (m : MappingState) (tag : Option String) (key v : Linked) (mark : Mark)
    (c : Cursor) : Except Fault (MappingState × Cursor) :=
  if tag = some CoreType.merge.tag then m.merge c v
  else (m.store key v mark c).map fun m => (m, c)

end ParamForm.Yaml
