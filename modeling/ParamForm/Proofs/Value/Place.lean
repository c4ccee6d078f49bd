import ParamForm.Issue
import ParamForm.Proofs.Value.JsonData

/-!
# Places inside values

The value at a place inside another one is found by a path of names and indices (`Value.at?`). What
JSON can write is data with finite numbers at all places (`Value.FromJson`), and so are its parts.
-/

namespace ParamForm

namespace Value

/-- The value at a place inside a value: under a name of a record, or at an index of a list. -/
def at? : List Step → Value → Option Value
  | [], v => some v
  | .field name :: path, .record fields => (Fields.get? fields name).bind (at? path)
  | .index i :: path, .list vs => vs[i]?.bind (at? path)
  | _ :: _, _ => none

@[simp]
theorem at?_field (name : String) (path : List Step) (fields : Fields) :
    (record fields).at? (.field name :: path) = (Fields.get? fields name).bind (at? path) := by
  rw [at?]

@[simp]
theorem at?_index (i : Nat) (path : List Step) (vs : List Value) :
    (list vs).at? (.index i :: path) = vs[i]?.bind (at? path) := by
  rw [at?]

/-- The values that JSON can write: data with records in order, and finite numbers of the format at
all places. -/
structure FromJson (v : Value) : Prop where
  wellFormed : v.WellFormed
  isData : v.IsData
  finite : ∀ path x, v.at? path = some (.number x) → x.isFinite = true

theorem FromJson.item {vs : List Value} (h : FromJson (.list vs)) {v : Value} (hv : v ∈ vs) :
    FromJson v where
  wellFormed := wellFormedItems_iff.mp h.wellFormed v hv
  isData := areData_iff.mp h.isData v hv
  finite path x hx := by
    obtain ⟨i, hi⟩ := List.mem_iff_getElem?.mp hv
    exact h.finite (.index i :: path) x (by rw [at?_index, hi, Option.bind_some, hx])

theorem FromJson.field {fields : Fields} (h : FromJson (.record fields)) {f : String × Value}
    (hf : f ∈ fields) : FromJson f.2 where
  wellFormed := wellFormedFields_iff.mp h.wellFormed.2 f hf
  isData := fieldsAreData_iff.mp h.isData f hf
  finite path x hx := by
    have hget := Fields.get?_of_mem h.wellFormed.1 hf
    exact h.finite (.field f.1 :: path) x (by rw [at?_field, hget, Option.bind_some, hx])

theorem FromJson.of_get? {fields : Fields} (h : FromJson (.record fields)) {name : String}
    {v : Value} (hv : fields.get? name = some v) : FromJson v :=
  h.field (Fields.mem_of_get? hv)

theorem FromJson.under {fields : Fields} (h : FromJson (.record fields)) {P : Value → Prop}
    (hP : ∀ v, FromJson v → P v) {name : String} : ∀ v, fields.get? name = some v → P v :=
  fun v hv => hP v (h.of_get? hv)

theorem fromJson_list_iff {vs : List Value} : FromJson (.list vs) ↔ ∀ v ∈ vs, FromJson v := by
  refine ⟨fun h v hv => h.item hv, fun h => ⟨?_, ?_, ?_⟩⟩
  · exact wellFormedItems_iff.mpr fun v hv => (h v hv).wellFormed
  · exact areData_iff.mpr fun v hv => (h v hv).isData
  · rintro (_ | ⟨_ | i, path⟩) x hx
    · cases hx
    · cases hx
    · obtain ⟨v, hv, hx⟩ := Option.bind_eq_some_iff.mp (at?_index i path vs ▸ hx)
      exact (h v (List.mem_of_getElem? hv)).finite path x hx

theorem fromJson_record_iff {fields : Fields} :
    FromJson (.record fields) ↔ fields.Ordered ∧ ∀ f ∈ fields, FromJson f.2 := by
  refine ⟨fun h => ⟨h.wellFormed.1, fun f hf => h.field hf⟩, fun ⟨hordered, h⟩ => ⟨?_, ?_, ?_⟩⟩
  · exact ⟨hordered, wellFormedFields_iff.mpr fun f hf => (h f hf).wellFormed⟩
  · exact fieldsAreData_iff.mpr fun f hf => (h f hf).isData
  · rintro (_ | ⟨name | _, path⟩) x hx
    · cases hx
    · obtain ⟨v, hv, hx⟩ := Option.bind_eq_some_iff.mp (at?_field name path fields ▸ hx)
      exact (h _ (Fields.mem_of_get? hv)).finite path x hx
    · cases hx

theorem sizeOf_item_lt {vs : List Value} {v : Value} (h : v ∈ vs) :
    sizeOf v < sizeOf (Value.list vs) := by
  have := List.sizeOf_lt_of_mem h
  simp only [Value.list.sizeOf_spec]
  omega

theorem sizeOf_field_lt {fields : Fields} {f : String × Value} (h : f ∈ fields) :
    sizeOf f.2 < sizeOf (Value.record fields) := by
  have := List.sizeOf_lt_of_mem h
  have hpair : sizeOf f.2 < sizeOf f := by
    obtain ⟨name, v⟩ := f
    simp only [Prod.mk.sizeOf_spec]
    omega
  simp only [Value.record.sizeOf_spec]
  omega

/-- What holds of a value that JSON can write whenever it holds of its elements, or of the values of
its fields, holds of every such value. -/
theorem FromJson.induction {motive : (v : Value) → FromJson v → Prop}
    (null : ∀ h, motive .null h) (bool : ∀ b h, motive (.bool b) h)
    (number : ∀ x h, motive (.number x) h) (text : ∀ s h, motive (.text s) h)
    (list : ∀ vs h, (∀ v (hv : v ∈ vs), motive v (h.item hv)) → motive (.list vs) h)
    (record : ∀ (fields : Fields) h, (∀ f (hf : f ∈ fields), motive f.2 (h.field hf)) →
      motive (.record fields) h)
    {v : Value} (h : FromJson v) : motive v h := by
  induction hsize : sizeOf v using Nat.strongRecOn generalizing v with
  | ind n ih =>
    subst hsize
    cases v with
    | null => exact null h
    | bool b => exact bool b h
    | number x => exact number x h
    | text s => exact text s h
    | list vs => exact list vs h fun v hv => ih _ (sizeOf_item_lt hv) (h.item hv) rfl
    | record fields => exact record fields h fun f hf => ih _ (sizeOf_field_lt hf) (h.field hf) rfl
    | _ => exact h.isData.elim

/-- A value without parts can be written if it is data, and a finite number of the format where it
is a number. -/
theorem fromJson_of_leaf {v : Value} (hlist : ∀ vs, v ≠ .list vs)
    (hrecord : ∀ fields, v ≠ .record fields) (hwell : v.WellFormed) (hdata : v.IsData)
    (hfinite : ∀ x, v = .number x → x.isFinite = true) : FromJson v := by
  refine ⟨hwell, hdata, fun path x hx => ?_⟩
  cases path with
  | nil => exact hfinite x (Option.some.inj hx)
  | cons step path =>
    rw [at?] at hx
    · cases hx
    · exact fun _ fields heq _ => hrecord fields heq
    · exact fun _ vs heq _ => hlist vs heq

theorem FromJson.isNan_eq_false {x : Number} (h : FromJson (.number x)) : x.isNan = false := by
  have hfinite := h.finite [] x rfl
  cases x with
  | nan => cases hfinite
  | _ => rfl

theorem FromJson.ne_absent {v : Value} (h : FromJson v) : v ≠ .absent := by
  rintro rfl
  exact h.isData

theorem FromJson.member {v : Value} (h : FromJson v) (name : String) :
    v.member name = .absent ∨ FromJson (v.member name) := by
  cases v with
  | record fields =>
    rw [Value.member, entries, Fields.get]
    cases hget : Fields.get? fields name with
    | none => exact .inl rfl
    | some w => exact .inr (h.of_get? hget)
  | bytes bs => exact h.isData.elim
  | _ => exact .inl rfl

end Value

end ParamForm
