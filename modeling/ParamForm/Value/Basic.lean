import ParamForm.Number.Basic

/-!
# Values

The data of documents, form values and overrides. A record keeps its fields in one fixed order:
names that are array indices first, by number, then the others as they were put in (`Fields.put`).
-/

namespace ParamForm

/-- A value of a document. `absent` stands for a place that is named but holds nothing, `date`
counts milliseconds from the start of 1970, and `bytes` is binary data. -/
inductive Value where
  | absent
  | null
  | bool (b : Bool)
  | number (x : Number)
  | text (s : String)
  | date (ms : Int)
  | bytes (bs : List UInt8)
  | list (items : List Value)
  | record (fields : List (String × Value))
  deriving Inhabited

/-- The fields of a record, in order. -/
abbrev Fields (α : Type := Value) := List (String × α)

/-- The number that a name writes as an array index: digits without a leading zero, below
`2 ^ 32 - 1`. -/
def arrayIndex? (name : String) : Option Nat :=
  match name.toList with
  | [] => none
  | c :: cs =>
    if (c :: cs).all Char.isDigit && (c ≠ '0' || cs.isEmpty) && cs.length < 10 then
      let n := (c :: cs).foldl (fun n d => n * 10 + (d.toNat - '0'.toNat)) 0
      if n < 4294967295 then some n else none
    else none

namespace Fields

variable {α : Type}

/-- The value of a name, if there is a field of it. -/
def get? (fields : Fields) (name : String) : Option Value :=
  fields.lookup name

/-- Whether there is a field of a name. -/
def has (fields : Fields α) (name : String) : Bool :=
  fields.any (·.1 == name)

/-- The value of a name, `absent` if there is none. -/
def get (fields : Fields) (name : String) : Value :=
  (get? fields name).getD .absent

/-- Puts a new name where the order of names wants it. -/
def insertNew (name : String) (v : α) : Fields α → Fields α
  | [] => [(name, v)]
  | (other, w) :: rest =>
    match arrayIndex? name, arrayIndex? other with
    | some n, some m =>
      if n < m then (name, v) :: (other, w) :: rest else (other, w) :: insertNew name v rest
    | some _, none => (name, v) :: (other, w) :: rest
    | none, _ => (other, w) :: insertNew name v rest

/-- Sets the value of a name: a name that is there keeps its place. -/
def put (fields : Fields α) (name : String) (v : α) : Fields α :=
  if has fields name then fields.map fun f => if f.1 == name then (name, v) else f
  else insertNew name v fields

/-- The record of a list of fields, a later field winning over an earlier one of its name. -/
def ofList (entries : List (String × Value)) : Fields :=
  entries.foldl (fun fields e => put fields e.1 e.2) []

end Fields

namespace Value

/-- The elements of a list as a record's fields, under their indices. -/
def indexed {α : Type} (vs : List α) : Fields α :=
  vs.zipIdx.map fun (v, i) => (toString i, v)

/-- Bytes as numbers. -/
def byteNumbers (bs : List UInt8) : List Value :=
  bs.map fun b => .number (.whole b.toNat)

/-- Whether a value is an object: a record, a date or binary data. -/
def isObject : Value → Bool
  | .record _ | .date _ | .bytes _ => true
  | _ => false

/-- The named parts of an object: a record's fields, and binary data byte by byte. -/
def entries : Value → Fields
  | .record fields => fields
  | .bytes bs => indexed (byteNumbers bs)
  | _ => []

/-- The part of an object under a name, `absent` if there is none. -/
def member (v : Value) (name : String) : Value :=
  Fields.get v.entries name

/-- Whether there is nothing in place of a value. -/
def isAbsent : Value → Bool
  | .absent => true
  | _ => false

/-- A text, if the value is one. -/
def asText? : Value → Option String
  | .text s => some s
  | _ => none

/-- A number, if the value is one. -/
def asNumber? : Value → Option Number
  | .number x => some x
  | _ => none

/-- The items of a list, if the value is one. -/
def asList? : Value → Option (List Value)
  | .list vs => some vs
  | _ => none

/-- Whether a value counts as true where a condition is expected. -/
def isTruthy : Value → Bool
  | .absent | .null | .bool false | .text "" => false
  | .number x => !(x.isNan || x = .whole 0 || x = .negZero)
  | _ => true

end Value

end ParamForm
