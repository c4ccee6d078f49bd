import ParamForm.Yaml.BlockScalar
import ParamForm.Yaml.FlowCollection
import ParamForm.Yaml.BlockMapping
import ParamForm.Yaml.Property
import ParamForm.Yaml.Quoted

/-!
# Nodes

Reading of nodes by recursive descent: the properties, the content in the first style that fits, and
the tag applied to it. `Node.read` ties the readers of collections together, one level of depth at a
time.
-/

namespace ParamForm.Yaml

/-- The scalar or alias that begins here, if one does, and whether it is plain. -/
def leaf? (floor : Nat) (context : Context) (c : Cursor) :
    Except Fault (Option (Content × Bool × Cursor)) := do
  let scalar (cs : List Char) : Content := ⟨some .scalar, .leaf (.text (String.ofList cs))⟩
  if context.allowsBlocks then
    if let some (text, d) ← block? floor c then return some (scalar text, false, d)
  if let some (text, d) ← quoted? c then return some (scalar text, false, d)
  if let some (v, d) ← alias? c then return some (⟨none, v⟩, false, d)
  if let some (text, d) ← plain? floor (context = .flowIn) c then
    return some (scalar text, true, d)
  return none

/-- The tag of a plain scalar without one. -/
def plainTag : String := "?"

/-- The tag that keeps a content as it is. -/
def fixedTag : String := "!"

/-- What was read of a node before its tag is applied. -/
structure Draft where
  tag : Option String
  anchor : Option String
  content : Option Content

/-- A block mapping that begins at the first of the properties that were read up to `c`, if there
is one: then they are those of its first key. -/
def keyedMapping? (child : Reader) (floor : Nat) (first : Option Cursor) (c : Cursor) :
    Except Fault (Option (Content × Cursor)) := do
  let some start := first | return none
  if start.tab.isNone && !startsWith (fun ch => ch = '|' || ch = '>') c.rest then
    if let (.mapping fields, d) ← blockMapping child floor none start then
      return some (⟨some .mapping, .record fields⟩, d)
  return none

/-- A draft of a flow collection, of a block mapping whose first key has the properties, or of a
scalar or an alias. -/
def flowDraft (child : Reader) (floor : Nat) (context : Context) (first : Option Cursor)
    (tag anchor : Option String) (c : Cursor) : Except Fault (Draft × Cursor) := do
  if let some (content, d) ← flowCollection? child floor anchor c then
    return (⟨tag, anchor, some content⟩, d)
  match ← keyedMapping? child floor first c with
  | some (content, d) => .ok (⟨none, none, some content⟩, d)
  | none =>
    match ← leaf? floor context c with
    | none => .ok (⟨tag, anchor, none⟩, c.bind anchor (.leaf .null))
    | some (content, isPlain, d) =>
      if content.kind.isNone && (tag.isSome || anchor.isSome) then d.fail .aliasWithProperties
      else
        let tag := if isPlain then tag <|> some plainTag else tag
        .ok (⟨tag, anchor, some content⟩, d.bind anchor content.value)

/-- A draft of a node that stands deep enough. An attempt at a block mapping that finds no node at
all gives up the properties. Where no block collection may begin for the properties before it, one
may begin with them. -/
def insideDraft (child : Reader) (floor : Nat) (context : Context) (collections : Bool)
    (first : Option Cursor) (tag anchor : Option String) (c : Cursor) :
    Except Fault (Draft × Cursor) := do
  if collections then
    if let some (content, d) ← blockSequence? child anchor c then
      return (⟨tag, anchor, some content⟩, d)
    if c.tab.isNone && !c.rest.isEmpty then
      match ← blockMapping child floor anchor c with
      | (.mapping fields, d) =>
        return (⟨tag, anchor, some ⟨some .mapping, .record fields⟩⟩, d)
      | (.single node, d) => return (⟨tag, anchor, some ⟨node.kind, node.value⟩⟩, d)
      | (.nothing, d) => return ← flowDraft child floor context none none none d
  let first := if context.allowsBlocks && !collections then first else none
  flowDraft child floor context first tag anchor c

/-- Applies a construction, which needs a tag of a type. -/
def constructed (tag : String) (made : Construction) (c : Cursor) : Except Fault Linked :=
  match made with
  | .value v => .ok v
  | .refused => c.fail (.unresolved tag)
  | .noText => .error .noText

/-- The tag and value that a draft gets: a plain scalar is tried against the implicit types, and a
named type constructs its value. The anchor is bound to what comes out. -/
def resolve (draft : Draft) (c : Cursor) : Except Fault (Option String × Linked × Cursor) := do
  let v := (draft.content.map (·.value)).getD (.leaf .null)
  let kind := draft.content.bind (·.kind)
  match draft.tag with
  | none => .ok (none, v, c.bind draft.anchor v)
  | some tag =>
    if tag = plainTag then
      if !isNullValue v && kind ≠ some .scalar then
        c.fail (.kindMismatch tag .scalar kind)
      else match implicit? v with
        | some (t, made) =>
          let w ← constructed t.tag made c
          .ok (some t.tag, w, c.bind draft.anchor w)
        | none => .ok (some tag, v, c)
    else if tag = fixedTag then .ok (some tag, v, c)
    else match CoreType.ofTag? kind tag with
      | none => c.fail (.unknownTag tag)
      | some t =>
        if !isNullValue v && kind ≠ some t.kind then c.fail (.kindMismatch tag t.kind kind)
        else
          let w ← constructed tag (t.construct c.names v) c
          .ok (some tag, w, c.bind draft.anchor w)

/-- The properties of a node and the place of its content. -/
def Properties.ofRequest (r : Request) (c : Cursor) : Except Fault (Properties × Cursor) :=
  let blocks := r.context.allowsBlocks
  let (breaks, d) := if r.seek then c.separation true else (0, c)
  let entered := breaks ≠ 0
  let p : Properties :=
    ⟨none, none, none, if entered then .of r.floor d.indent else .inside, entered, blocks⟩
  if p.standing = .inside then p.read r.floor blocks d 3 else .ok (p, d)

/-- A draft of the node after its properties. A line at the border may hold a block sequence, and
only as the value of a mapping or the root. -/
def draft (child : Reader) (r : Request) (p : Properties) (c : Cursor) :
    Except Fault (Draft × Cursor) :=
  let collections := p.collections && (p.entered || r.compact)
  match p.standing with
  | .inside =>
    let floor := if r.context.allowsBlocks then r.floor else r.floor - 1
    insideDraft child floor r.context collections p.first p.tag p.anchor c
  | .border =>
    if r.context = .blockOut && collections then do
      match ← blockSequence? child p.anchor c with
      | some (content, d) => .ok (⟨p.tag, p.anchor, some content⟩, d)
      | none =>
        .ok (⟨p.tag, p.anchor, none⟩, if c.tab.isNone then c.bind p.anchor (.list []) else c)
    else .ok (⟨p.tag, p.anchor, none⟩, c)
  | .outside => .ok (⟨p.tag, p.anchor, none⟩, c)

/-- Reads a node, given the reader of the nodes below it. -/
def Node.readWith (child : Reader) : Reader := fun r c => do
  let (p, d) ← Properties.ofRequest r c
  let (draft, e) ← draft child r p d
  let (tag, v, f) ← resolve draft e
  let present := tag.isSome || draft.anchor.isSome || draft.content.isSome
  .ok (⟨tag, draft.content.bind (·.kind), v, present⟩, f)

/-- Reads a node of a nesting below `depth`. -/
def Node.read : Nat → Reader
  | 0 => fun _ c => c.fail .tooDeep
  | depth + 1 => Node.readWith (Node.read depth)

/-- How deep nodes may be nested. -/
def maxDepth : Nat := 100

end ParamForm.Yaml
