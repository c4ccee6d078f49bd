import ParamForm.Proofs.Value.Place
import ParamForm.Text.Blank

/-!
# The declared shape of overrides

What a document of overrides holds is declared by the parts that each kind of record in it has
(`Override.RecordKind.parts`). A JSON value may conform to what is declared (`Override.Conforms`)
and have more in it, which can be dropped (`Override.clean`).
-/

namespace ParamForm

namespace Value

mutual

/-- The value without the fields named `__proto__`, at any depth. -/
def withoutProto : Value → Value
  | .list vs => .list (itemsWithoutProto vs)
  | .record fields => .record (fieldsWithoutProto fields)
  | v => v

/-- The items without fields for the prototype. -/
def itemsWithoutProto : List Value → List Value
  | [] => []
  | v :: vs => withoutProto v :: itemsWithoutProto vs

/-- The fields without those for the prototype, here and in their values. -/
def fieldsWithoutProto : List (String × Value) → List (String × Value)
  | [] => []
  | (name, v) :: fields =>
    if name = "__proto__" then fieldsWithoutProto fields
    else (name, withoutProto v) :: fieldsWithoutProto fields

end

theorem jsonItems?_eq {vs : List Value} (h : ∀ v ∈ vs, jsonData? v = some v.withoutProto) :
    jsonItems? vs = some (itemsWithoutProto vs) := by
  induction vs with
  | nil => rfl
  | cons v vs ih =>
    rw [List.forall_mem_cons] at h
    rw [jsonItems?, h.1, ih h.2, itemsWithoutProto]
    rfl

theorem jsonFields?_eq {fields : Fields}
    (h : ∀ f ∈ fields, jsonData? f.2 = some f.2.withoutProto) :
    jsonFields? fields = some (fieldsWithoutProto fields) := by
  induction fields with
  | nil => rfl
  | cons f fields ih =>
    obtain ⟨name, v⟩ := f
    rw [List.forall_mem_cons] at h
    rw [jsonFields?, h.1, ih h.2, fieldsWithoutProto]
    simp

theorem jsonData?_eq {v : Value} (h : FromJson v) : jsonData? v = some v.withoutProto := by
  induction h using FromJson.induction with
  | list vs h ih =>
    rw [jsonData?, jsonItems?_eq ih, withoutProto]
    rfl
  | record fields h ih =>
    rw [jsonData?, jsonFields?_eq ih, withoutProto]
    rfl
  | number x h => simp [jsonData?, h.isNan_eq_false, withoutProto]
  | _ => rfl

end Value

namespace Override

open Value Checked

/-- The kinds of records in a document of overrides. -/
inductive RecordKind where
  | override
  | rule
  | validation
  | choice
  | style
  | group

/-- What is declared of a number. -/
inductive Bound where
  | any
  | count
  | positive

/-- Whether a number is within a bound. The zero with a minus sign counts nothing too. -/
def Bound.Admits : Bound → Number → Prop
  | any, _ => True
  | count, x => x = .negZero ∨ ∃ n : Nat, x = .whole n
  | positive, x => ∃ n : Nat, 0 < n ∧ x = .whole n

/-- What is declared of a value. -/
inductive Shape where
  | key
  | text
  | bool
  | json
  | number (bound : Bound)
  | word (words : List String)
  | list (item : Shape)
  | record (kind : RecordKind)

/-- A part of a record. -/
structure Part where
  name : String
  required : Bool
  shape : Shape

/-- The parts of a record, in the order of their declaration. -/
def RecordKind.parts : RecordKind → List Part
  | override =>
    [⟨"jsonKey", true, .key⟩, ⟨"label", false, .text⟩, ⟨"description", false, .text⟩,
      ⟨"uiType", false, .text⟩, ⟨"validate", false, .record validation⟩,
      ⟨"conditions", false, .list (.record rule)⟩, ⟨"sort", false, .number .count⟩,
      ⟨"subParameters", false, .list (.record override)⟩, ⟨"disable", false, .bool⟩,
      ⟨"style", false, .record style⟩,
      ⟨"subParameterGroupOption", false, .list (.record group)⟩, ⟨"additional", false, .bool⟩]
  | rule =>
    [⟨"jsonKey", true, .key⟩, ⟨"operator", false, .word ["==", "!=", "in"]⟩,
      ⟨"value", true, .json⟩, ⟨"action", false, .word ["enable", "disable"]⟩]
  | validation =>
    [⟨"required", false, .bool⟩, ⟨"enum", false, .list .json⟩,
      ⟨"options", false, .list (.record choice)⟩, ⟨"pattern", false, .text⟩,
      ⟨"min", false, .number .any⟩, ⟨"max", false, .number .any⟩,
      ⟨"minLength", false, .number .count⟩, ⟨"maxLength", false, .number .count⟩,
      ⟨"defaultValue", false, .json⟩, ⟨"immutable", false, .bool⟩]
  | choice => [⟨"label", true, .text⟩, ⟨"value", true, .json⟩]
  | style => [⟨"colSpan", false, .number .positive⟩]
  | group => [⟨"label", true, .text⟩, ⟨"keys", true, .list .text⟩]

/-- Whether a JSON value is as declared: a record has its required parts, and every part of it that
is there is as declared. Other fields do not matter. -/
inductive Conforms : Shape → Value → Prop
  | key {s : String} : Text.trim s ≠ "" → Conforms .key (.text s)
  | text (s : String) : Conforms .text (.text s)
  | bool (b : Bool) : Conforms .bool (.bool b)
  | json (v : Value) : Conforms .json v
  | number {bound : Bound} {x : Number} : bound.Admits x → Conforms (.number bound) (.number x)
  | word {words : List String} {s : String} : s ∈ words → Conforms (.word words) (.text s)
  | list {item : Shape} {vs : List Value} :
    (∀ v ∈ vs, Conforms item v) → Conforms (.list item) (.list vs)
  | record {kind : RecordKind} {fields : Fields} :
    (∀ part ∈ kind.parts, part.required = true → part.name ∈ fields.map Prod.fst) →
    (∀ part ∈ kind.parts, ∀ v, fields.get? part.name = some v → Conforms part.shape v) →
      Conforms (.record kind) (.record fields)

/-- The part of a name. -/
def RecordKind.part? (kind : RecordKind) (name : String) : Option Part :=
  kind.parts.find? (·.name = name)

/-- The fields that are declared, in the order of their declaration. -/
def RecordKind.declared (kind : RecordKind) (fields : Fields) : Fields :=
  kind.parts.filterMap fun part => (fields.get? part.name).map (part.name, ·)

mutual

/-- The value with nothing in it but what is declared: keys lose the blanks at their ends, JSON
values their fields named `__proto__`, and records all fields that are not declared for them. -/
def clean : Shape → Value → Value
  | .key, .text s => .text (Text.trim s)
  | .json, v => v.withoutProto
  | .list item, .list vs => .list (cleanItems item vs)
  | .record kind, .record fields => .record (kind.declared (cleanFields kind fields))
  | _, v => v

/-- The items of a list, each cleaned by the shape of items. -/
def cleanItems (item : Shape) : List Value → List Value
  | [] => []
  | v :: vs => clean item v :: cleanItems item vs

/-- The declared fields of a record, each cleaned by its shape. -/
def cleanFields (kind : RecordKind) : List (String × Value) → List (String × Value)
  | [] => []
  | (name, v) :: fields =>
    match kind.part? name with
    | some part => (name, clean part.shape v) :: cleanFields kind fields
    | none => cleanFields kind fields

end

theorem clean_list (item : Shape) (vs : List Value) :
    clean (.list item) (.list vs) = .list (vs.map (clean item)) := by
  rw [clean]
  congr 1
  induction vs with
  | nil => rfl
  | cons v vs ih => rw [cleanItems, ih, List.map_cons]

theorem part?_of_mem {kind : RecordKind} {part : Part} (h : part ∈ kind.parts) :
    kind.part? part.name = some part := by
  revert part
  cases kind <;> simp [RecordKind.part?, RecordKind.parts]

theorem get?_cleanFields {kind : RecordKind} {part : Part} (h : part ∈ kind.parts)
    (fields : Fields) :
    Fields.get? (cleanFields kind fields) part.name
      = (fields.get? part.name).map (clean part.shape) := by
  induction fields with
  | nil => rfl
  | cons f fields ih =>
    obtain ⟨name, v⟩ := f
    rw [cleanFields]
    by_cases hname : part.name = name
    · rw [← hname, part?_of_mem h]
      simp [Fields.get?]
    · have hother : (part.name == name) = false := by simpa using hname
      have hskip : Fields.get? ((name, v) :: fields) part.name = Fields.get? fields part.name := by
        simp only [Fields.get?, List.lookup_cons, hother]
      rw [hskip, ← ih]
      cases kind.part? name with
      | none => rfl
      | some other => simp only [Fields.get?, List.lookup_cons, hother]

theorem clean_record (kind : RecordKind) (fields : Fields) :
    clean (.record kind) (.record fields) = .record (kind.parts.filterMap fun part =>
      (fields.get? part.name).map fun v => (part.name, clean part.shape v)) := by
  rw [clean, RecordKind.declared]
  congr 1
  refine List.filterMap_congr fun part hpart => ?_
  rw [get?_cleanFields hpart, Option.map_map]
  rfl

end Override

end ParamForm
