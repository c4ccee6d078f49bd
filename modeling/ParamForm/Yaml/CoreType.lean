import ParamForm.Number.Literal
import ParamForm.Number.Shortest
import ParamForm.Yaml.Binary
import ParamForm.Yaml.Linked
import ParamForm.Yaml.Timestamp

/-!
# Types of nodes

The types that a tag can name, what each makes of a node's content (`CoreType.construct`), and the
type of a plain scalar without a tag (`implicit?`): the first of null, boolean, integer, float,
timestamp and merge key whose form its text has.
-/

namespace ParamForm.Yaml

/-- The types that documents are read with. -/
inductive CoreType where
  | null
  | bool
  | int
  | float
  | timestamp
  | merge
  | binary
  | str
  | omap
  | pairs
  | seq
  | set
  | map
  deriving DecidableEq, Inhabited

/-- Whether a scalar is spelled as null. -/
def isNullText (cs : List Char) : Bool :=
  ["~", "null", "Null", "NULL"].contains (String.ofList cs)

/-- The truth value that a scalar is spelled as. -/
def boolText? (cs : List Char) : Option Bool :=
  let s := String.ofList cs
  if ["true", "True", "TRUE"].contains s then some true
  else if ["false", "False", "FALSE"].contains s then some false
  else none

/-- The sign that a text begins with, and the rest: whether it is negative. -/
def signed : List Char → Bool × List Char
  | '-' :: cs => (true, cs)
  | '+' :: cs => (false, cs)
  | cs => (false, cs)

/-- The magnitude of an integer: digits, or digits of base two, eight or sixteen after `0b`, `0o` or
`0x`. -/
def magnitude? : List Char → Option Nat
  | '0' :: 'b' :: cs => wholeNumeral? 2 cs
  | '0' :: 'o' :: cs => wholeNumeral? 8 cs
  | '0' :: 'x' :: cs => wholeNumeral? 16 cs
  | cs => wholeNumeral? 10 cs

/-- An integer that some number of the format is near to. Zero has no sign when it is one digit. -/
def int? (cs : List Char) : Option Number :=
  let (neg, ds) := signed cs
  if ds = ['0'] then some (.whole 0)
  else (magnitude? ds).bind fun n =>
    let x := Number.ofRatio neg n 1
    if x.isFinite then some x else none

/-- A decimal numeral with a digit before any point. -/
def startsDigit (cs : List Char) : Bool :=
  startsWith Char.isDigit cs

/-- A float: a decimal numeral, which may have a sign if a digit begins it and must not end in a
point that begins it, an infinity, or no number. -/
def float? (cs : List Char) : Option Number :=
  let (neg, ds) := signed cs
  let word := String.ofList ds
  if [".inf", ".Inf", ".INF"].contains word then some (.infinity neg)
  else if [".nan", ".NaN", ".NAN"].contains (String.ofList cs) then some .nan
  else if startsDigit ds || startsWith (· = '.') cs then
    (Number.ofNumeral? neg ds).filter Number.isFinite
  else none

/-- Whether a scalar is spelled as a merge key. -/
def isMergeText (cs : List Char) : Bool :=
  cs = ['<', '<']

namespace CoreType

/-- The name of the type in the shared vocabulary of tags. -/
def word : CoreType → String
  | null => "null"
  | bool => "bool"
  | int => "int"
  | float => "float"
  | timestamp => "timestamp"
  | merge => "merge"
  | binary => "binary"
  | str => "str"
  | omap => "omap"
  | pairs => "pairs"
  | seq => "seq"
  | set => "set"
  | map => "map"

/-- The tag of a type in full. -/
def tag (t : CoreType) : String :=
  "tag:yaml.org,2002:" ++ t.word

/-- All types, those first that a plain scalar is tried against. -/
def all : List CoreType :=
  [null, bool, int, float, timestamp, merge, binary, str, omap, pairs, seq, set, map]

/-- What sort of node a type is of. -/
def kind : CoreType → NodeKind
  | omap | pairs | seq => .sequence
  | set | map => .mapping
  | _ => .scalar

/-- The type of a tag among those of a kind of node; a node without content may have any. -/
def ofTag? (found : Option NodeKind) (tag : String) : Option CoreType :=
  (all.filter fun t => found.isNone || found = some t.kind).find? (·.tag == tag)

/-- The types that a plain scalar is tried against. -/
def implicit : List CoreType :=
  [null, bool, int, float, timestamp, merge]

end CoreType

/-- What a type makes of a content: a value, nothing, or it would need a text that the content does
not have. -/
inductive Construction where
  | value (v : Linked)
  | refused
  | noText
  deriving Inhabited

/-- A scalar that was made, or nothing. -/
def Construction.ofOption : Option Value → Construction
  | some v => value (.leaf v)
  | none => refused

/-- The one field of a record that has just one. -/
def singleField? : Linked → Option (String × Linked)
  | .record [f] => some f
  | _ => none

/-- The elements of an ordered mapping: records of one field each, with different names. -/
def isOrderedMap (n : Names) (items : List Linked) : Bool :=
  let names := items.map fun v => (singleField? (n.target v)).map (·.1)
  names.all Option.isSome && names.Nodup

/-- The pairs that a list of records of one field each writes. -/
def pairs? (n : Names) (items : List Linked) : Option (List Linked) :=
  items.mapM fun v =>
    (singleField? (n.target v)).map fun (name, w) => .list [.leaf (.text name), w]

/-- Whether a value is null. -/
def isNullValue : Linked → Bool
  | .leaf .null => true
  | _ => false

namespace CoreType

/-- What a type makes of a text. -/
def ofText (t : CoreType) (s : String) : Construction :=
  let cs := s.toList
  .ofOption (match t with
    | null => if isNullText cs then some .null else none
    | bool => (boolText? cs).map .bool
    | int => (int? cs).map .number
    | float => (float? cs).map .number
    | timestamp => (timestamp? cs).map .date
    | merge => if isMergeText cs then some (.text s) else none
    | binary => (binary? cs).map .bytes
    | str => some (.text s)
    | _ => none)

/-- What a type makes of a node without content. -/
def ofNothing : CoreType → Construction
  | null | merge => .value (.leaf .null)
  | str => .value (.leaf (.text ""))
  | seq | omap | pairs => .value (.list [])
  | map | set => .value (.record [])
  | _ => .refused

/-- What a type of scalars makes of a value that another type made already. -/
def ofMade (t : CoreType) (v : Value) : Construction :=
  match t, v with
  | str, v => .value (.leaf v)
  | float, .number x => if x.isFinite then .noText else .refused
  | float, .bytes [_] => .noText
  | int, .bytes (_ :: _) => .noText
  | binary, _ => .noText
  | _, _ => .refused

/-- What a type makes of a content of its kind, where names stand for this. -/
def construct (t : CoreType) (n : Names) : Linked → Construction
  | .leaf .null => t.ofNothing
  | .leaf (.text s) => t.ofText s
  | .leaf v => t.ofMade v
  | .list items =>
    match t with
    | omap => if isOrderedMap n items then .value (.list items) else .refused
    | pairs => match pairs? n items with
      | some items => .value (.list items)
      | none => .refused
    | _ => .value (.list items)
  | .record fields =>
    match t with
    | set =>
      if fields.all fun f => isNullValue f.2 then .value (.record fields) else .refused
    | _ => .value (.record fields)
  | .link _ => .refused

end CoreType

/-- The type and value of a content by the first of some types that takes it. The types of scalars
look at no names. -/
def firstTaking (v : Linked) : List CoreType → Option (CoreType × Construction)
  | [] => none
  | t :: ts =>
    match t.construct {} v with
    | .refused => firstTaking v ts
    | made => some (t, made)

/-- The type and value of a plain scalar that is not a text. -/
def implicit? (v : Linked) : Option (CoreType × Construction) :=
  firstTaking v CoreType.implicit

end ParamForm.Yaml
