import ParamForm.Schema.Kind
import ParamForm.Value.Text

/-!
# Widgets

The widget that shows a parameter, from its kind and, for strings and lists of scalars, from the
format or the item type (`Widget.ofNode?`). Formats and item types are looked up by name in a table
of widgets. Besides its own entries a table answers the names that every table answers, and such an
answer is taken as it is: a function, or for `__proto__` an empty record.
-/

namespace ParamForm

/-- The widgets that derivation chooses from. -/
inductive Tag where
  | input
  | password
  | number
  | switch
  | select
  | strings
  | numbers
  | switches
  | structs
  | group
  | kv
  deriving DecidableEq, Inhabited

/-- The spelling of a tag. -/
def Tag.name : Tag → String
  | input => "Input"
  | password => "Password"
  | number => "Number"
  | switch => "Switch"
  | select => "Select"
  | strings => "Strings"
  | numbers => "Numbers"
  | switches => "Switches"
  | structs => "Structs"
  | group => "Group"
  | kv => "KV"

/-- What a parameter holds as its widget: a tag, any tag an operator may write, or an answer that
every table gives. A function cannot be copied. -/
inductive Widget where
  | tag (name : String)
  | function (name : String)
  | emptyRecord
  deriving DecidableEq, Inhabited

/-- The widget of a tag. -/
def Tag.widget (t : Tag) : Widget :=
  .tag t.name

/-- Whether a widget can be copied. A function cannot. -/
def Widget.isCopyable : Widget → Bool
  | .function _ => false
  | _ => true

/-- The tag that parameters of a kind have, unless their node says more. -/
def Kind.tag : Kind → Tag
  | .object => .group
  | .map => .kv
  | .arrayOfScalar => .strings
  | .arrayOfObject => .structs
  | .enum => .select
  | .string => .input
  | .number => .number
  | .boolean => .switch
  | .fallback => .input

namespace Widget

/-- The functions that every table answers, by the names they are found under. -/
def commonFunctions : List (String × String) :=
  [("constructor", "Object"), ("__defineGetter__", "__defineGetter__"),
    ("__defineSetter__", "__defineSetter__"), ("hasOwnProperty", "hasOwnProperty"),
    ("__lookupGetter__", "__lookupGetter__"), ("__lookupSetter__", "__lookupSetter__"),
    ("isPrototypeOf", "isPrototypeOf"), ("propertyIsEnumerable", "propertyIsEnumerable"),
    ("toString", "toString"), ("valueOf", "valueOf"), ("toLocaleString", "toLocaleString")]

/-- The answer of a table of widgets to a name. -/
def lookup (table : List (String × Tag)) (name : String) : Option Widget :=
  match table.lookup name with
  | some t => some t.widget
  | none =>
    if name == "__proto__" then some emptyRecord
    else (commonFunctions.lookup name).map function

/-- The string formats that have a widget. -/
def formats : List (String × Tag) :=
  [("password", .password)]

/-- The widgets of lists, by the type of their items. -/
def itemTypes : List (String × Tag) :=
  [("string", .strings), ("number", .numbers), ("integer", .numbers), ("boolean", .switches)]

/-- The table's answer to a value, and otherwise the widget of the kind. A value that does not
count as true is not looked up. `none` if the value has no text to look up. -/
def refine? (table : List (String × Tag)) (v : Value) (kind : Kind) : Option Widget :=
  if v.isTruthy then
    v.text?.map fun name => (lookup table (String.ofList name)).getD kind.tag.widget
  else some kind.tag.widget

/-- The widget of a node of a kind; `none` if its format or item type has no text. -/
def ofNode? (kind : Kind) (node : Value) : Option Widget :=
  match kind with
  | .string => refine? formats (node.member "format") kind
  | .arrayOfScalar =>
    match Schema.items? node with
    | some items => refine? itemTypes (items.member "type") kind
    | none => some kind.tag.widget
  | _ => some kind.tag.widget

end Widget

end ParamForm
