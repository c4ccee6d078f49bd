import ParamForm.Yaml.Graph
import ParamForm.Yaml.Node

/-!
# Documents

A text is read as a stream of documents (`documents`), each of which may begin with directives and
ends at a document mark or with the text. `load` expects one document at most.
-/

namespace ParamForm.Yaml

/-- The words of a directive after its name, up to the end of the line or a comment; `words` bounds
their number. -/
def directiveWords (c : Cursor) : Nat → List (List Char) × Cursor
  | 0 => ([], c)
  | words + 1 =>
    let c := c.skip isWhite
    if startsWith (· = '#') c.rest then ([], c.skipComment)
    else
      let word := c.rest.takeWhile fun ch => !isSpacing ch
      if word.isEmpty then ([], c)
      else
        let (more, d) := directiveWords (c.past word (c.rest.drop word.length)) words
        (word :: more, d)

/-- The major number of a version `major.minor`. -/
def majorVersion? (word : List Char) : Option Nat :=
  match word.span (· ≠ '.') with
  | (major, _ :: minor) => do
    let n ← wholeNumeral? 10 major
    let _ ← wholeNumeral? 10 minor
    some n
  | _ => none

/-- Applies a version directive; there may be one in a document. -/
def versionDirective (seen : Bool) (words : List (List Char)) (c : Cursor) :
    Except Fault Unit :=
  if seen then c.fail .repeatedVersion
  else match words with
    | [word] =>
      match majorVersion? word with
      | none => c.fail .badVersion
      | some n => if n = 1 then .ok () else c.fail .unacceptableVersion
    | _ => c.fail .versionArguments

/-- Applies a directive that declares a tag handle. -/
def handleDirective (words : List (List Char)) (c : Cursor) : Except Fault Cursor :=
  match words with
  | [handle, text] =>
    if !isHandle handle then c.fail .badDeclaredHandle
    else
      let handle := String.ofList handle
      if (c.handles.lookup handle).isSome then c.fail (.repeatedHandle handle)
      else if !isTagName text then c.fail .badHandleText
      else match unescaped? text with
        | none => c.fail (.malformedHandleText (String.ofList text))
        | some text => .ok { c with handles := (handle, text) :: c.handles }
  | _ => c.fail .handleArguments

/-- What the directives of a document have said: whether there was one, and whether one named the
version. -/
structure Directives where
  present : Bool := false
  versioned : Bool := false

/-- Reads one directive from after its `%` on. Unknown ones are passed over. -/
def directive (ds : Directives) (c : Cursor) : Except Fault (Directives × Cursor) := do
  let name := c.rest.takeWhile fun ch => !isSpacing ch
  let c := c.past name (c.rest.drop name.length)
  if name.isEmpty then c.fail .emptyDirective
  let (words, d) := directiveWords c (c.rest.length + 1)
  let d := d.lineBreak?.getD d
  if name = "YAML".toList then
    versionDirective ds.versioned words d
    .ok (⟨true, true⟩, d)
  else if name = "TAG".toList then
    let d ← handleDirective words d
    .ok ({ ds with present := true }, d)
  else .ok ({ ds with present := true }, d)

/-- Reads directives as long as lines without indentation begin with `%`; `lines` bounds their
number. -/
def directives (ds : Directives) (c : Cursor) : Nat → Except Fault (Directives × Cursor)
  | 0 => .ok (ds, c)
  | lines + 1 => do
    let c := c.token
    if c.indent = 0 && startsWith (· = '%') c.rest then
      let (ds, d) ← directive ds c.next
      directives ds d lines
    else .ok (ds, c)

/-- Steps over three hyphens without indentation; they are needed after directives. -/
def documentStart (ds : Directives) (c : Cursor) : Except Fault Cursor :=
  match c.indent, c.rest with
  | 0, '-' :: '-' :: '-' :: rest => .ok (c.past ['-', '-', '-'] rest).token
  | _, _ => if ds.present then c.fail .directivesEndMissing else .ok c

/-- Whether a rest is no more than one unit: nothing but the end of the last line. -/
def isFinal (c : Cursor) : Bool :=
  Text.width c.rest ≤ 1

/-- Reads a document. Names of an earlier one are forgotten. -/
def document (c : Cursor) : Except Fault (Graph × Cursor) := do
  let c := { c with names := {}, handles := [] }
  let (ds, c) ← directives {} c (c.rest.length + 1)
  let c ← documentStart ds c
  let (node, d) ← Node.read maxDepth ⟨c.indent, .blockOut, false, true⟩ c
  let d := d.token
  let graph : Graph := ⟨node.value, d.names.collections⟩
  if d.atMark then
    if startsWith (· = '.') d.rest then
      .ok (graph, (d.past ['.', '.', '.'] (d.rest.drop 3)).token)
    else .ok (graph, d)
  else if isFinal d then .ok (graph, d)
  else d.fail .documentEndMissing

/-- Reads documents until the text ends; `count` bounds their number. -/
def documentsFrom (c : Cursor) : Nat → Except Fault (List Graph)
  | 0 => .ok []
  | count + 1 => do
    if isFinal c then return []
    let (g, d) ← document c
    let gs ← documentsFrom d count
    .ok (g :: gs)

/-- A text without a byte order mark at its start, and with an end of its last line. -/
def normalized (cs : List Char) : List Char :=
  let cs := if (cs.getLast?.map isBreak).getD true then cs else cs ++ ['\n']
  match cs with
  | '\uFEFF' :: rest => rest
  | cs => cs

/-- The documents of a text. -/
def documents (cs : List Char) : Except Fault (List Graph) :=
  let cs := normalized cs
  let start : Cursor := { rest := cs }
  let beforeNull := cs.takeWhile (· ≠ '\x00')
  if beforeNull.length < cs.length then (start.past beforeNull []).fail .nullByte
  else
    let spaces := cs.takeWhile (· = ' ')
    documentsFrom { start.past spaces (cs.drop spaces.length) with indent := spaces.length }
      (cs.length + 1)

/-- What the one document of a text is loaded as; a text without one is `absent`. -/
def load (text : String) : Except Fault Loaded := do
  match ← documents text.toList with
  | [] => .ok (.tree .absent)
  | [g] => .ok g.loaded
  | _ => .error .severalDocuments

end ParamForm.Yaml
