import Mathlib.Data.List.Pairwise
import ParamForm.Value.Basic

/-!
# Well-formed values

A value stands for data if the fields of each record are in the one order that putting them gives,
with no name twice, and each number is one of the binary64 format (`Value.WellFormed`). Putting the
fields of such a record one after another gives the record again (`Fields.put_of_before`).
-/

namespace ParamForm

namespace Fields

variable {α : Type}

/-- Whether a name comes before another one in a record: array indices by number, then the other
names. -/
def Before (name other : String) : Prop :=
  match arrayIndex? name, arrayIndex? other with
  | some n, some m => n < m
  | some _, none => True
  | none, some _ => False
  | none, none => name ≠ other

/-- The fields in the order of a record. -/
def Ordered (fields : Fields α) : Prop :=
  fields.Pairwise fun f g => Before f.1 g.1

theorem Before.ne {name other : String} (h : Before name other) : name ≠ other := by
  rintro rfl
  unfold Before at h
  split at h
  · rename_i n m hn hm
    rw [hn] at hm
    simp only [Option.some.injEq] at hm
    omega
  · simp_all
  · exact h
  · exact h rfl

theorem insertNew_of_before {name : String} {v : α} {fields : Fields α}
    (h : ∀ f ∈ fields, Before f.1 name) : insertNew name v fields = fields ++ [(name, v)] := by
  induction fields with
  | nil => rfl
  | cons f fields ih =>
    obtain ⟨other, w⟩ := f
    have hfirst : Before other name := h (other, w) List.mem_cons_self
    have ih := ih fun f hf => h f (List.mem_cons_of_mem _ hf)
    unfold Before at hfirst
    cases hname : arrayIndex? name with
    | none => simp [insertNew, hname, ih]
    | some n =>
      cases hother : arrayIndex? other with
      | none => simp [hname, hother] at hfirst
      | some m =>
        simp only [hname, hother] at hfirst
        simp [insertNew, hname, hother, ih, Nat.lt_asymm hfirst]

theorem has_eq_false_of_before {name : String} {fields : Fields α}
    (h : ∀ f ∈ fields, Before f.1 name) : has fields name = false := by
  rw [has, List.any_eq_false]
  intro f hf
  simpa using (h f hf).ne

theorem get?_of_mem {fields : Fields} (h : Ordered fields) {f : String × Value} (hf : f ∈ fields) :
    get? fields f.1 = some f.2 := by
  induction fields with
  | nil => cases hf
  | cons g fields ih =>
    obtain ⟨hfirst, hrest⟩ := List.pairwise_cons.mp h
    rw [get?, List.lookup_cons]
    rcases List.mem_cons.mp hf with rfl | hf
    · rw [beq_self_eq_true]
    · have hne : (f.1 == g.1) = false := by simpa using (Before.ne (hfirst f hf)).symm
      rw [hne]
      exact ih hrest hf

theorem mem_of_get? {fields : Fields} {name : String} {v : Value}
    (h : get? fields name = some v) : (name, v) ∈ fields := by
  obtain ⟨before, after, heq, -⟩ := List.lookup_eq_some_iff.mp h
  simp [heq]

theorem get?_isSome_iff {fields : Fields} {name : String} :
    (get? fields name).isSome = true ↔ name ∈ fields.map Prod.fst := by
  simp only [get?, List.lookup_isSome_iff, List.mem_map, beq_iff_eq]
  exact exists_congr fun f => and_congr_right fun _ => eq_comm

/-- A name that comes after all others is put at the end. -/
theorem put_of_before {name : String} {v : α} {fields : Fields α}
    (h : ∀ f ∈ fields, Before f.1 name) : put fields name v = fields ++ [(name, v)] := by
  rw [put, has_eq_false_of_before h, insertNew_of_before h]
  rfl

end Fields

/-- The values of the binary64 format: 53 bits of significand, and exponents within its range. -/
def Number.Representable : Number → Prop
  | .whole n => n.natAbs < twoPow 1024 ∧ ∃ m e : Nat, m < twoPow 53 ∧ n.natAbs = m * twoPow e
  | .fraction _ m k => m % 2 = 1 ∧ m < twoPow 53 ∧ 0 < k ∧ k ≤ 1074
  | _ => True

theorem Number.representable_whole {n : Int} (h : n.natAbs < twoPow 53) :
    (Number.whole n).Representable :=
  ⟨Nat.lt_trans h (by decide +kernel), n.natAbs, 0, h, (Nat.mul_one n.natAbs).symm⟩

namespace Value

mutual

/-- Records in order, and numbers of the format, everywhere in a value. -/
def WellFormed : Value → Prop
  | .number x => x.Representable
  | .list vs => WellFormedItems vs
  | .record fields => Fields.Ordered fields ∧ WellFormedFields fields
  | _ => True

/-- Whether each item is well-formed. -/
def WellFormedItems : List Value → Prop
  | [] => True
  | v :: vs => WellFormed v ∧ WellFormedItems vs

/-- Whether the value of each field is well-formed. -/
def WellFormedFields : List (String × Value) → Prop
  | [] => True
  | (_, v) :: fields => WellFormed v ∧ WellFormedFields fields

end

mutual

/-- Whether everything in a value can be written in a document: no place that holds nothing, no
date and no binary data. -/
def IsData : Value → Prop
  | .absent | .date _ | .bytes _ => False
  | .list vs => AreData vs
  | .record fields => FieldsAreData fields
  | _ => True

/-- Whether each item is data. -/
def AreData : List Value → Prop
  | [] => True
  | v :: vs => IsData v ∧ AreData vs

/-- Whether the value of each field is data. -/
def FieldsAreData : List (String × Value) → Prop
  | [] => True
  | (_, v) :: fields => IsData v ∧ FieldsAreData fields

end

end Value

end ParamForm
