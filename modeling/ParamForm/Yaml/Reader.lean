import ParamForm.Yaml.Cursor

/-!
# Readers of nodes

What a node is asked for and what comes of reading it. The readers of collections are handed the
reader of the nodes below them (`Reader`).
-/

namespace ParamForm.Yaml

/-- Where a node stands: in a block collection or a flow collection, as a value or as a key. -/
inductive Context where
  | blockOut
  | blockIn
  | flowOut
  | flowIn
  deriving DecidableEq, Inhabited

/-- Whether block collections can stand in a context. -/
def Context.allowsBlocks : Context → Bool
  | blockOut | blockIn => true
  | flowOut | flowIn => false

/-- What a node is asked for: the indentation that its lines need, its context, whether it may begin
on a later line, and whether a block collection may begin on the line of what stands before it. -/
structure Request where
  floor : Nat
  context : Context
  seek : Bool := false
  compact : Bool := true

/-- A node that was read: its tag, the kind of its content, its value, and whether it is there at
all. -/
structure Node where
  tag : Option String
  kind : Option NodeKind
  value : Linked
  present : Bool
  deriving Inhabited

/-- The value of a node where a missing one counts as null. -/
def Node.valueOrNull (n : Node) : Linked :=
  if n.present then n.value else .leaf .null

/-- Reads the node that begins at a place, and gives the place after it. -/
abbrev Reader := Request → Cursor → Except Fault (Node × Cursor)

/-- The content of a node: its kind and value. An alias has no kind. -/
structure Content where
  kind : Option NodeKind
  value : Linked
  deriving Inhabited

end ParamForm.Yaml
