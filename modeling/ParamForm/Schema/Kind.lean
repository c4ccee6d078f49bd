import ParamForm.Value.Basic

/-!
# Kinds of schema nodes

A schema node is an object; anything else, and a node that cannot be shown by its structure, is of
the kind `fallback` (`Kind.ofNode`).
-/

namespace ParamForm

/-- The shapes that a parameter can have. -/
inductive Kind where
  | object
  | map
  | arrayOfScalar
  | arrayOfObject
  | enum
  | string
  | number
  | boolean
  | fallback
  deriving DecidableEq, Inhabited

namespace Kind

/-- All kinds. -/
def all : List Kind :=
  [object, map, arrayOfScalar, arrayOfObject, enum, string, number, boolean, fallback]

/-- The spelling of a kind. -/
def name : Kind → String
  | object => "object"
  | map => "map"
  | arrayOfScalar => "array-of-scalar"
  | arrayOfObject => "array-of-object"
  | enum => "enum"
  | string => "string"
  | number => "number"
  | boolean => "boolean"
  | fallback => "fallback"

/-- The kind of a spelling, if it is one of the nine. -/
def ofName? (s : String) : Option Kind :=
  all.find? (·.name == s)

end Kind

namespace Schema

/-- A node's properties, if they form an object. -/
def properties? (node : Value) : Option Fields :=
  let properties := node.member "properties"
  if properties.isObject then some properties.entries else none

/-- Whether a node describes at least one property. -/
def hasProperties (node : Value) : Bool :=
  (properties? node).any (! ·.isEmpty)

/-- The value schema of a node whose further keys are described by an object. -/
def valueSchema? (node : Value) : Option Value :=
  let schema := node.member "additionalProperties"
  if schema.isObject then some schema else none

/-- The item schema of an array node, if it is an object. -/
def items? (node : Value) : Option Value :=
  let items := node.member "items"
  if items.isObject then some items else none

/-- Whether the type of a node is a given text. -/
def hasType (node : Value) (name : String) : Bool :=
  match node.member "type" with
  | .text s => s == name
  | _ => false

/-- Whether a node describes an object by its properties, with that type or none. -/
def isObjectShaped (node : Value) : Bool :=
  ((node.member "type").isAbsent || hasType node "object") && hasProperties node

/-- Whether the type of a node is that of a text, a number or a truth value. -/
def isScalar (node : Value) : Bool :=
  ["string", "number", "integer", "boolean"].any (hasType node)

end Schema

namespace Kind

open Schema

/-- The kind of an array, by its items. -/
def ofItems : Option Value → Kind
  | none => fallback
  | some items =>
    if isObjectShaped items then arrayOfObject
    else if isScalar items then arrayOfScalar
    else fallback

/-- The kind of a schema node. Allowed values come first, then properties, then the type. -/
def ofNode (node : Value) : Kind :=
  if !node.isObject then fallback
  else if ((node.member "enum").asList?).any (! ·.isEmpty) then enum
  else if isObjectShaped node then object
  else match node.member "type" with
    | .text "string" => string
    | .text "number" => number
    | .text "integer" => number
    | .text "boolean" => boolean
    | .text "object" => if (valueSchema? node).isSome then map else fallback
    | .text "array" => ofItems (items? node)
    | _ => fallback

end Kind

end ParamForm
