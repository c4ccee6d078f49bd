import ParamForm.Diagnostic
import ParamForm.Failure
import ParamForm.Parameter.Basic
import ParamForm.Schema.Key
import ParamForm.Value.Weight

/-!
# Derivation

The parameter tree of a schema. Each property gives one parameter; a node that cannot be shown by
its structure gives one of kind `fallback` and a diagnostic. Derivation fails only where a format,
an item type or an unsupported type has no text.
-/

namespace ParamForm

open Value

namespace Schema

theorem fieldsWeight_properties {node : Value} {fields : Fields}
    (h : properties? node = some fields) : fieldsWeight fields < weight node := by
  simp only [properties?] at h
  split at h
  · rename_i ho
    have := weight_member (isAbsent_of_isObject ho)
    have := fieldsWeight_entries (node.member "properties")
    simp only [Option.some.injEq] at h
    subst h
    omega
  · simp at h

theorem weight_valueSchema {node schema : Value} (h : valueSchema? node = some schema) :
    weight schema < weight node := by
  simp only [valueSchema?] at h
  split at h
  · rename_i ho
    have := weight_member (isAbsent_of_isObject ho)
    simp only [Option.some.injEq] at h
    subst h
    omega
  · simp at h

theorem weight_items {node items : Value} (h : items? node = some items) :
    weight items < weight node := by
  simp only [items?] at h
  split at h
  · rename_i ho
    have := weight_member (isAbsent_of_isObject ho)
    simp only [Option.some.injEq] at h
    subst h
    omega
  · simp at h

/-- The names that a node requires. What is no text among them is passed over. -/
def requiredNames (node : Value) : List String :=
  ((node.member "required").asList?.getD []).filterMap asText?

/-- A nonempty text under a name. -/
def nonemptyText? (node : Value) (name : String) : Option String :=
  (node.member name).asText?.filter (! ·.isEmpty)

/-- What a schema node asks of a value. -/
def constraints (node : Value) : Constraints where
  enum := (node.member "enum").asList?
  options := (node.member "enum").asList?.map fun vs =>
    vs.map fun v => ⟨v.optionLabel, v⟩
  pattern := (node.member "pattern").asText?
  min := (node.member "minimum").asNumber?
  max := (node.member "maximum").asNumber?
  minLength := (node.member "minLength").asNumber?
  maxLength := (node.member "maxLength").asNumber?
  defaultValue :=
    if (node.member "default").isAbsent then none else some (node.member "default")

/-- Why a node was given the generic widget, unless its type has no text. -/
def fallbackMessage? (schema : Value) : Option String :=
  if !schema.isObject then some "schema is not an object, rendered as generic input"
  else match schema.member "type" with
    | .text "object" => some "object declares no properties, rendered as generic input"
    | .text "array" => some "array items are missing or unsupported, rendered as generic input"
    | .absent => some "schema declares no type, rendered as generic input"
    | declared => declared.text?.map fun cs =>
      "unsupported type \"" ++ String.ofList cs ++ "\", rendered as generic input"

/-- The diagnostic of a node of a kind. -/
def findings (kind : Kind) (jsonKey : String) (schema : Value) :
    Except Failure (List Diagnostic) :=
  match kind with
  | .fallback =>
    match fallbackMessage? schema with
    | some message => .ok [⟨.fallbackNode, jsonKey, message⟩]
    | none => .error .noText
  | _ => .ok []

/-- The data of the parameter of a property. It fails where the format or the item type of the node
has no text to look a widget up by. -/
def info (defaultSort : Number) (name jsonKey : String) (schema : Value) (required : Bool) :
    Except Failure ParameterInfo :=
  let kind := Kind.ofNode schema
  match Widget.ofNode? kind schema with
  | none => .error .noText
  | some uiType =>
    .ok {
      jsonKey
      label := (nonemptyText? schema "title").getD name
      description := nonemptyText? schema "description"
      uiType
      kind
      validate := ⟨required, constraints schema⟩
      conditions := []
      sort := defaultSort
      disable := none
      style := none
      subParameterGroupOption := none
      additional :=
        if (kind = .object ∨ kind = .map) ∧ (valueSchema? schema).isSome then some true else none
      others := []
    }

/-- The node whose properties become a parameter's sub-parameters: an object's own, and for an
array of objects those of its items, under the key of the array. -/
def owner? (kind : Kind) (schema : Value) : Option Value :=
  match kind with
  | .object => some schema
  | .arrayOfObject => items? schema
  | _ => none

/-- The schema of a map's further keys, where the kind has any. -/
def furtherKeys? (kind : Kind) (schema : Value) : Option Value :=
  match kind with
  | .object | .map => valueSchema? schema
  | _ => none

theorem weight_owner {kind : Kind} {schema node : Value} (h : owner? kind schema = some node) :
    weight node ≤ weight schema := by
  cases kind <;> simp only [owner?, reduceCtorEq, Option.some.injEq] at h
  · subst h
    omega
  · have := weight_items h
    omega

theorem weight_furtherKeys {kind : Kind} {schema node : Value}
    (h : furtherKeys? kind schema = some node) : weight node < weight schema := by
  cases kind <;> simp only [furtherKeys?, reduceCtorEq] at h <;> exact weight_valueSchema h

mutual

/-- The parameter of a node, and what was found below it: the node's own finding, then those of
its sub-parameters, then those of its further keys. -/
def derive (defaultSort : Number) (name jsonKey : String) (schema : Value) (required : Bool) :
    Except Failure (Parameter × List Diagnostic) := do
  let kind := Kind.ofNode schema
  let info ← info defaultSort name jsonKey schema required
  let found ← findings kind jsonKey schema
  let (subs, foundBelow) ← match _h : owner? kind schema with
    | none => .ok (none, [])
    | some node => do
      let (subs, found) ← match _h' : properties? node with
        | none => .ok ([], [])
        | some fields => deriveFields defaultSort jsonKey (requiredNames node) fields
      .ok (some subs, found)
  let (extra, foundExtra) ← match _h : furtherKeys? kind schema with
    | none => .ok (none, [])
    | some node => do
      let (extra, found) ← derive defaultSort name jsonKey node false
      .ok (some extra, found)
  .ok (⟨info, subs, extra⟩, found ++ foundBelow ++ foundExtra)
termination_by weight schema
decreasing_by
  · exact weight_furtherKeys _h
  · have := weight_owner _h
    have := fieldsWeight_properties _h'
    omega

/-- The parameters of a list of properties below a key. -/
def deriveFields (defaultSort : Number) (parent : String) (required : List String) :
    List (String × Value) → Except Failure (List Parameter × List Diagnostic)
  | [] => .ok ([], [])
  | (name, child) :: rest => do
    let (p, found) ← derive defaultSort name (Key.join parent name) child (required.contains name)
    let (ps, foundAfter) ← deriveFields defaultSort parent required rest
    .ok (p :: ps, found ++ foundAfter)
termination_by fields => fieldsWeight fields
decreasing_by
  · simp only [fieldsWeight]
    omega
  · simp only [fieldsWeight]
    omega

end

/-- The parameters of a schema's root, in the order of its properties. Anything but an object has
none. -/
def deriveRoot (defaultSort : Number) (schema : Value) :
    Except Failure (List Parameter × List Diagnostic) :=
  match properties? schema with
  | none => .ok ([], [])
  | some fields => deriveFields defaultSort "" (requiredNames schema) fields

end Schema

end ParamForm
