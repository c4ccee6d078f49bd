import ParamForm.Issue
import ParamForm.Value.Weight

/-!
# Checked values

Checks that collect every issue. A check turns a value into data of a type or into a nonempty list
of issues (`Checked`); the parts of a record are checked one after another, and the issues of all
of them are kept in that order.
-/

namespace ParamForm

/-- What became of a check. -/
inductive Checked (α : Type) where
  | ok (a : α)
  | bad (issues : List Issue)

namespace Checked

variable {α β : Type}

/-- A checked value is changed, and issues stay. -/
def map (f : α → β) : Checked α → Checked β
  | ok a => ok (f a)
  | bad issues => bad issues

/-- Applies what one check gave to what a second gave, or keeps the issues of both. -/
def apply : Checked (α → β) → Checked α → Checked β
  | ok f, ok a => ok (f a)
  | ok _, bad issues => bad issues
  | bad issues, ok _ => bad issues
  | bad issues, bad more => bad (issues ++ more)

instance : Applicative Checked where
  pure := ok
  map := map
  seq f a := f.apply (a ())

/-- The issues of a part, as those of the whole: each path begins with the step to the part. -/
def under (s : Step) : Checked α → Checked α
  | ok a => ok a
  | bad issues => bad (issues.map (Issue.under s))

/-- A check that fails with one issue at the value itself. -/
def fault (message : String) : Checked α :=
  bad [⟨[], message⟩]

end Checked

namespace Value

/-- The name of a value's type in an issue. -/
def typeName : Value → String
  | .absent => "undefined"
  | .null => "null"
  | .bool _ => "boolean"
  | .number x => if x.isNan then "nan" else "number"
  | .text _ => "string"
  | .date _ => "date"
  | .list _ => "array"
  | .bytes _ | .record _ => "object"

/-- A value of another type than the expected one. -/
def mismatch {α : Type} (expected : String) : Value → Checked α
  | .absent => .fault "Required"
  | v => .fault ("Expected " ++ expected ++ ", received " ++ v.typeName)

/-- A check for texts. -/
def checkText : Value → Checked String
  | .text s => .ok s
  | v => v.mismatch "string"

/-- A check for truth values. -/
def checkBool : Value → Checked Bool
  | .bool b => .ok b
  | v => v.mismatch "boolean"

/-- A number that satisfies some conditions; the messages of all that it breaks are kept. -/
def checkNumber (conditions : List ((Number → Bool) × String)) : Value → Checked Number
  | .number x =>
    if x.isNan then (Value.number x).mismatch "number"
    else match conditions.filter fun c => !c.1 x with
      | [] => .ok x
      | broken => .bad (broken.map fun c => ⟨[], c.2⟩)
  | v => v.mismatch "number"

/-- The elements of a list, counted from `i`. -/
def checkEach {α : Type} (check : Value → Checked α) (i : Nat) : List Value → Checked (List α)
  | [] => .ok []
  | v :: vs =>
    List.cons <$> (check v).under (.index i) <*> checkEach check (i + 1) vs

/-- A check for lists with a check for their items. -/
def checkList {α : Type} (check : Value → Checked α) : Value → Checked (List α)
  | .list vs => checkEach check 0 vs
  | v => v.mismatch "array"

/-- Whether a value has fields; binary data has one for each byte. -/
def hasFields : Value → Bool
  | .record _ | .bytes _ => true
  | _ => false

/-- A check for objects: only a value with fields is looked into. -/
def checkRecord {α : Type} (check : Value → Checked α) (v : Value) : Checked α :=
  if v.hasFields then check v else v.mismatch "object"

/-- A check of the value under a name, where none counts as absent. -/
def checkField {α : Type} (name : String) (check : Value → Checked α) (v : Value) : Checked α :=
  (check (v.member name)).under (.field name)

/-- A check that passes what is absent. -/
def checkOptional {α : Type} (check : Value → Checked α) : Value → Checked (Option α)
  | .absent => .ok none
  | v => (check v).map some

/-- The part of a record under a name that may be missing. -/
def checkPart {α : Type} (name : String) (check : Value → Checked α) (v : Value) :
    Checked (Option α) :=
  v.checkField name (checkOptional check)

/-- As `checkField`, under a name that every binary datum answers with a function. -/
def checkMethod {α : Type} (name expected : String) (check : Value → Checked α) (v : Value) :
    Checked α :=
  match v with
  | .bytes _ => .bad [⟨[.field name], "Expected " ++ expected ++ ", received function"⟩]
  | v => v.checkField name check

mutual

/-- The data that JSON can write: no places that hold nothing, no dates, and no value that is not a
number. Binary data is the record of its bytes, and fields named `__proto__` are dropped. -/
def jsonData? : Value → Option Value
  | .absent | .date _ => none
  | .number x => if x.isNan then none else some (.number x)
  | .bytes bs => some (.record (indexed (byteNumbers bs)))
  | .list vs => (jsonItems? vs).map .list
  | .record fields => (jsonFields? fields).map .record
  | v => some v

/-- The items as JSON data, if all of them are. -/
def jsonItems? : List Value → Option (List Value)
  | [] => some []
  | v :: vs => (jsonData? v).bind fun v => (jsonItems? vs).map (v :: ·)

/-- The fields as JSON data, if all values are. The field for the prototype is lost. -/
def jsonFields? : List (String × Value) → Option (List (String × Value))
  | [] => some []
  | (name, v) :: fields =>
    (jsonData? v).bind fun v =>
      (jsonFields? fields).map fun fields =>
        if name == "__proto__" then fields else (name, v) :: fields

end

/-- A check for JSON data. -/
def checkJson (v : Value) : Checked Value :=
  match jsonData? v with
  | some v => .ok v
  | none => .fault "Invalid input"

theorem itemsWeight_member {v : Value} {name : String} {vs : List Value}
    (h : v.member name = .list vs) : itemsWeight vs < weight v := by
  have present : (v.member name).isAbsent = false := by simp [h, isAbsent]
  have := weight_member present
  simp only [h, weight] at this
  omega

end Value

end ParamForm
