import ParamForm.Value.Basic

/-!
# Values with links

What a document is read as. An alias may stand inside the collection that it refers to, of which
the rest is still to come: there it is a link to that collection (`Linked.link`). What the named
collections hold is kept beside the names (`Names`), and changes as they are read.
-/

namespace ParamForm.Yaml

/-- A value with links to named collections, by the number under which each was opened. -/
inductive Linked where
  | leaf (v : Value)
  | list (items : List Linked)
  | record (fields : List (String × Linked))
  | link (slot : Nat)
  deriving Inhabited

/-- What a named collection holds. -/
inductive Collection where
  | list (items : List Linked)
  | record (fields : Fields Linked)
  deriving Inhabited

/-- A collection as a value. -/
def Collection.value : Collection → Linked
  | list items => .list items
  | record fields => .record fields

/-- What is there: for a link, what the collection holds. -/
def Linked.target (collections : List Collection) : Linked → Linked
  | .link slot => (collections.getD slot (.list [])).value
  | v => v

/-- What the names stand for that a document has given so far, the latest first, and what its named
collections hold, in the order in which they were opened. -/
structure Names where
  anchors : List (String × Linked) := []
  collections : List Collection := []
  deriving Inhabited

namespace Names

/-- What an alias stands for, if its name was given. -/
def get? (n : Names) (name : String) : Option Linked :=
  n.anchors.lookup name

/-- Gives a name to a value. -/
def give (n : Names) (name : String) (v : Linked) : Names :=
  { n with anchors := (name, v) :: n.anchors }

/-- Gives a name to a collection that begins: as long as it is open, the name stands for a link. -/
def opened (n : Names) (name : String) (v : Collection) : Names where
  anchors := (name, .link n.collections.length) :: n.anchors
  collections := n.collections ++ [v]

/-- Changes what a collection holds. -/
def revised (n : Names) (slot : Nat) (v : Collection) : Names :=
  { n with collections := n.collections.set slot v }

/-- What is there: for a link, what the collection holds by now. -/
def target (n : Names) (v : Linked) : Linked :=
  v.target n.collections

end Names

end ParamForm.Yaml
