import ParamForm.Number.Literal
import ParamForm.Yaml.Cursor

/-!
# Tags and anchors

The properties that stand before a node's content: its tag, written in full, by a declared handle or
by one of the two handles that need no declaration, and its anchor, the name that aliases refer to.
-/

namespace ParamForm.Yaml

/-- A handle: `!`, `!!`, or letters, digits and hyphens between two exclamation marks. -/
def isHandle (cs : List Char) : Bool :=
  match cs with
  | ['!'] | ['!', '!'] => true
  | '!' :: rest =>
    match rest.reverse with
    | '!' :: inner => !inner.isEmpty && inner.all fun c => c.isAlphanum || c = '-'
    | _ => false
  | _ => false

/-- Whether a text is made of escapes `%hh` and of characters that a tag name may hold. -/
def isTagTail : List Char → Bool
  | [] => true
  | '%' :: a :: b :: rest =>
    (digitValue? a).isSome && (digitValue? b).isSome && isTagTail rest
  | c :: rest => (c.isAlphanum || "-#;/?:@&=+$,_.!~*\x27()[]".toList.contains c) && isTagTail rest

/-- A name that a tag may have. Its first character is any single unit but a flow indicator. -/
def isTagName : List Char → Bool
  | [] => false
  | c :: rest => !isFlowIndicator c && Text.charWidth c = 1 && isTagTail rest

/-- The bytes of a text in which escapes `%hh` stand for bytes. -/
def escapedBytes? : List Char → Option (List UInt8)
  | [] => some []
  | '%' :: a :: b :: rest => do
    let high ← digitValue? a
    let low ← digitValue? b
    let bytes ← escapedBytes? rest
    some ((high * 16 + low).toUInt8 :: bytes)
  | '%' :: _ => none
  | c :: rest => (escapedBytes? rest).map ((String.singleton c).toUTF8.toList ++ ·)

/-- A text with its percent escapes resolved, if they give one. -/
def unescaped? (cs : List Char) : Option String :=
  (escapedBytes? cs).bind fun bytes => String.fromUTF8? (ByteArray.mk bytes.toArray)

/-- A tag as written: in full, or a handle and the name after it. -/
inductive WrittenTag where
  | full (name : List Char)
  | short (handle name : List Char)

/-- The name of a tag, without its handle. -/
def WrittenTag.name : WrittenTag → List Char
  | full name | short _ name => name

/-- The handle that shared types are named by when none is declared. -/
def sharedHandle : String := "!!"

/-- What a handle stands for: what a directive says, or else its own meaning if it has one. -/
def handleText? (handles : List (String × String)) (handle : String) : Option String :=
  handles.lookup handle
    <|> (if handle = "!" then some "!"
      else if handle = sharedHandle then some "tag:yaml.org,2002:" else none)

/-- Reads a tag in full, from after `!<` on; its first character is taken as it is. -/
def fullTag (c : Cursor) : Except Fault (WrittenTag × Cursor) :=
  let run := c.rest.take 1 ++ (c.rest.drop 1).takeWhile (· ≠ '>')
  let rest := c.rest.drop run.length
  let ended := c.past run rest
  if rest.isEmpty then ended.fail .streamEndsInTag else .ok (.full run, ended.next)

/-- Splits the text after an exclamation mark at the next one. -/
def splitMark (cs : List Char) : List Char × Option (List Char) :=
  match cs.span (· ≠ '!') with
  | (front, _ :: back) => (front, some back)
  | (front, []) => (front, none)

/-- Reads a tag with a handle, from after its first exclamation mark on. -/
def shortTag (c : Cursor) : Except Fault (WrittenTag × Cursor) :=
  let run := c.rest.takeWhile fun ch => !isSpacing ch
  let ended := c.past run (c.rest.drop run.length)
  /- a second mark closes the handle, and no third one may follow -/
  let suffix (handle : List Char) (before name : List Char) :
      Except Fault (WrittenTag × Cursor) :=
    match splitMark name with
    | (front, some _) => (c.past (before ++ front) []).fail .markInSuffix
    | (_, none) =>
      if name.any isFlowIndicator then ended.fail .flowIndicatorInSuffix
      else .ok (.short handle name, ended)
  match splitMark run with
  | (front, some back) =>
    let handle := '!' :: (front ++ ['!'])
    if isHandle handle then suffix handle (front ++ ['!']) back
    else (c.past front []).fail .badHandle
  | (name, none) => suffix ['!'] [] name

/-- A tag, if one begins here. -/
def tag? (c : Cursor) : Except Fault (Option (String × Cursor)) :=
  match c.rest with
  | '!' :: rest => do
    let (written, d) ← match rest with
      | '<' :: _ => fullTag c.next.next
      | _ => shortTag c.next
    let name := String.ofList written.name
    if !written.name.isEmpty && !isTagName written.name then d.fail (.badTagName name)
    else match unescaped? written.name with
      | none => d.fail (.malformedTagName name)
      | some name =>
        match written with
        | .full _ => .ok (some (name, d))
        | .short handle _ =>
          let handle := String.ofList handle
          match handleText? d.handles handle with
          | some text => .ok (some (text ++ name, d))
          | none => d.fail (.undeclaredHandle handle)
  | _ => .ok none

/-- Reads the name after an ampersand or an asterisk. It cannot be empty. -/
def anchorName (c : Cursor) (empty : Reason) : Except Fault (String × Cursor) :=
  let run := c.rest.takeWhile fun ch => !isSpacing ch && !isFlowIndicator ch
  let ended := c.past run (c.rest.drop run.length)
  if run.isEmpty then ended.fail empty else .ok (String.ofList run, ended)

/-- An anchor, if one begins here. -/
def anchor? (c : Cursor) : Except Fault (Option (String × Cursor)) :=
  if startsWith (· = '&') c.rest then (anchorName c.next .emptyAnchor).map some else .ok none

/-- The value that an alias stands for, if one begins here. -/
def alias? (c : Cursor) : Except Fault (Option (Linked × Cursor)) :=
  if startsWith (· = '*') c.rest then do
    let (name, d) ← anchorName c.next .emptyAlias
    match d.names.get? name with
    | some v => .ok (some (v, d.token))
    | none => d.fail (.unknownAlias name)
  else .ok none

/-- How the indentation of a line compares with what a node needs: it is enough, it is one less, so
that the line may only hold an entry of a sequence, or the line belongs to something outside. -/
inductive Standing where
  | inside
  | border
  | outside
  deriving DecidableEq, Inhabited

/-- The standing of a line for a node that needs an indentation of `floor`. -/
def Standing.of (floor indent : Nat) : Standing :=
  if floor ≤ indent then .inside else if floor = indent + 1 then .border else .outside

/-- What was read before a node's content: the properties and the place of the first of them, where
the line of the content stands, whether that line was entered for it, and whether a block collection
may follow. -/
structure Properties where
  tag : Option String := none
  anchor : Option String := none
  first : Option Cursor := none
  standing : Standing := .inside
  entered : Bool := false
  collections : Bool
  deriving Inhabited

/-- Steps from a property to what follows it. -/
def Properties.step (p : Properties) (floor : Nat) (blocks : Bool) (c : Cursor) :
    Properties × Cursor :=
  let (breaks, d) := c.separation true
  if breaks = 0 then ({ p with collections := false }, d)
  else
    ({ p with entered := true, collections := blocks, standing := .of floor d.indent }, d)

/-- Whether a property begins here of which the node has one already. -/
def Properties.repeated? (p : Properties) (c : Cursor) : Option Reason :=
  if p.tag.isSome && startsWith (· = '!') c.rest then some .repeatedTag
  else if p.anchor.isSome && startsWith (· = '&') c.rest then some .repeatedAnchor
  else none

/-- Reads properties. As each may occur once, three steps suffice. On a line that was entered for
the content, a second one belongs to a node inside it. -/
def Properties.read (floor : Nat) (blocks : Bool) (p : Properties) (c : Cursor) :
    Nat → Except Fault (Properties × Cursor)
  | 0 => .ok (p, c)
  | steps + 1 =>
    match p.repeated? c with
    | some reason => if p.entered then .ok (p, c) else c.fail reason
    | none => do
      let first := p.first <|> some c
      match ← tag? c with
      | some (tag, d) =>
        let (p, e) := { p with tag := some tag, first := first }.step floor blocks d
        p.read floor blocks e steps
      | none =>
        match ← anchor? c with
        | some (anchor, d) =>
          let (p, e) := { p with anchor := some anchor, first := first }.step floor blocks d
          p.read floor blocks e steps
        | none => .ok (p, c)

end ParamForm.Yaml
