import ParamForm.Yaml.Linked

/-!
# Values spelled out

A document is read as a value with links to its collections (`Graph`). To spell it out is to put
what a collection holds in place of each link, over and over, which has no end if a collection is
inside itself (`Graph.spelled`). Where only some parts are looked at (`View`), the others do not
count.
-/

namespace ParamForm.Yaml

/-- What was read of a document, and what its collections hold. -/
structure Graph where
  root : Linked
  collections : List Collection
  deriving Inhabited

/-- How far a value is looked into. Each place is looked at in some way, and that way says in which
way the elements of a list there, or the fields of a record, are looked at, if they are. -/
structure View (σ : Type) where
  items : σ → Option σ
  fields : σ → Option (String → σ)

namespace View

variable {σ : Type} (view : View σ)

/-- The view of everything. -/
def whole : View Unit where
  items := some
  fields _ := some fun _ => ()

mutual

/-- What is seen of a value. Lists and records that are not looked into are empty. -/
def seen (look : σ) : Value → Value
  | .list vs =>
    match view.items look with
    | none => .list []
    | some below => .list (seenItems below vs)
  | .record fields =>
    match view.fields look with
    | none => .record []
    | some below => .record (seenFields below fields)
  | v => v

/-- What is seen of the elements of a list. -/
def seenItems (look : σ) : List Value → List Value
  | [] => []
  | v :: vs => seen look v :: seenItems look vs

/-- What is seen of the fields of a record. -/
def seenFields (below : String → σ) : List (String × Value) → List (String × Value)
  | [] => []
  | (name, v) :: fields => (name, seen (below name) v) :: seenFields below fields

end

end View

section Spell

variable {σ : Type} (view : View σ) (next : σ → Nat → Option Value)

mutual

/-- What is seen of a value with links, with what `next` puts in for the links; `none` if that has
no end. -/
def Linked.spell (look : σ) : Linked → Option Value
  | .leaf v => some (view.seen look v)
  | .list items =>
    match view.items look with
    | none => some (.list [])
    | some below => (spellItems below items).map .list
  | .record fields =>
    match view.fields look with
    | none => some (.record [])
    | some below => (spellFields below fields).map .record
  | .link slot => next look slot

/-- What is seen of the elements of a list. -/
def Linked.spellItems (look : σ) : List Linked → Option (List Value)
  | [] => some []
  | v :: vs => (Linked.spell look v).bind fun w => (spellItems look vs).map (w :: ·)

/-- What is seen of the fields of a record. -/
def Linked.spellFields (below : String → σ) : Fields Linked → Option Fields
  | [] => some []
  | (name, v) :: fields =>
    (Linked.spell (below name) v).bind fun w => (spellFields below fields).map ((name, w) :: ·)

end

end Spell

namespace Graph

variable {σ : Type}

/-- What a collection is spelled out as if at most `turns` links are followed from one to the
next. -/
def follow (g : Graph) (view : View σ) : Nat → σ → Nat → Option Value
  | 0, _, _ => none
  | turns + 1, look, slot =>
    (g.collections.getD slot (.list [])).value.spell view (g.follow view turns) look

/-- What a document is spelled out as, in a view with a number of ways to look at a place. Links are
followed from one to the next as often as there are collections and ways to look at them, and once
more: then one of them was followed before in the same way, and there is no end. -/
def spelled (g : Graph) (view : View σ) (ways : Nat) (look : σ) : Option Value :=
  g.root.spell view (g.follow view (g.collections.length * ways + 1)) look

end Graph

/-- What a text is loaded as: a value, or one of which some part is inside itself. -/
inductive Loaded where
  | tree (v : Value)
  | cyclic (g : Graph)
  deriving Inhabited

/-- What a document that was read is loaded as. -/
def Graph.loaded (g : Graph) : Loaded :=
  match g.spelled .whole 1 () with
  | some v => .tree v
  | none => .cyclic g

namespace Loaded

/-- Whether what was loaded is an object. -/
def isObject : Loaded → Bool
  | .tree v => v.isObject
  | .cyclic g =>
    match g.root.target g.collections with
    | .record _ => true
    | _ => false

end Loaded

end ParamForm.Yaml
