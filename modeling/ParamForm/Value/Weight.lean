import ParamForm.Value.Basic

/-!
# Weights

A count of the places in a value. Every part of an object weighs less than the object
(`weight_of_lookup`, `fieldsWeight_entries`), so recursion into parts found by name comes to an end.
-/

namespace ParamForm.Value

mutual

/-- A measure of a value that exceeds that of each of its parts. -/
def weight : Value → Nat
  | .bytes bs => 1 + 2 * bs.length
  | .list vs => 1 + itemsWeight vs
  | .record fields => 1 + fieldsWeight fields
  | _ => 1

/-- The measure of the items of a list. -/
def itemsWeight : List Value → Nat
  | [] => 0
  | v :: vs => 1 + weight v + itemsWeight vs

/-- The measure of the fields of a record. -/
def fieldsWeight : List (String × Value) → Nat
  | [] => 0
  | (_, v) :: fields => 1 + weight v + fieldsWeight fields

end

theorem weight_of_lookup {fields : Fields} {name : String} {v : Value}
    (h : fields.lookup name = some v) : weight v < fieldsWeight fields := by
  induction fields with
  | nil => simp at h
  | cons f fields ih =>
    obtain ⟨other, w⟩ := f
    simp only [List.lookup_cons] at h
    simp only [fieldsWeight]
    split at h
    · simp only [Option.some.injEq] at h
      subst h
      omega
    · have := ih h
      omega

theorem fieldsWeight_indexed (bs : List UInt8) (i : Nat) :
    fieldsWeight (((byteNumbers bs).zipIdx i).map fun (v, i) => (toString i, v))
      = 2 * bs.length := by
  induction bs generalizing i with
  | nil => simp [byteNumbers, fieldsWeight]
  | cons b bs ih =>
    have := ih (i + 1)
    simp only [byteNumbers, List.map_cons, List.zipIdx_cons, fieldsWeight, weight,
      List.length_cons] at this ⊢
    omega

theorem fieldsWeight_entries (v : Value) : fieldsWeight v.entries < weight v := by
  cases v with
  | bytes bs =>
    have := fieldsWeight_indexed bs 0
    simp only [entries, indexed, weight, this]
    omega
  | _ =>
    simp only [entries, fieldsWeight, weight]
    omega

theorem weight_member {v : Value} {name : String} (h : (v.member name).isAbsent = false) :
    weight (v.member name) < weight v := by
  have hv := fieldsWeight_entries v
  unfold member Fields.get Fields.get? at h ⊢
  rcases hl : v.entries.lookup name with _ | w
  · simp [hl, isAbsent] at h
  · have := weight_of_lookup hl
    simp only [Option.getD_some]
    omega

theorem isAbsent_of_isObject {v : Value} (h : v.isObject = true) : v.isAbsent = false := by
  cases v <;> simp_all [isObject, isAbsent]

end ParamForm.Value
