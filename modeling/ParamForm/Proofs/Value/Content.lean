import ParamForm.Condition.Visible
import ParamForm.Proofs.Lookup
import ParamForm.Proofs.Schema.Json
import ParamForm.Proofs.Value.Place

/-!
# The content of values

Two values have the same content if they are of one type and agree in their elements, or in their
names and what stands under each, in whatever order the names are listed (`Value.SameContent`). The
JSON texts of two values tell more than that: they are equal exactly if the values have the same
content and list their names in the same order as well (`Value.matchesValue_iff`).
-/

namespace ParamForm

namespace Value

/-- Whether two values have the same content, whatever the order of the names in their records. -/
inductive SameContent : Value → Value → Prop
  | null : SameContent .null .null
  | bool (b : Bool) : SameContent (.bool b) (.bool b)
  | number {x y : Number} : x.same y = true → SameContent (.number x) (.number y)
  | text (s : String) : SameContent (.text s) (.text s)
  | list {vs ws : List Value} : vs.length = ws.length →
    (∀ (i : Nat) (v w : Value), vs[i]? = some v → ws[i]? = some w → SameContent v w) →
      SameContent (.list vs) (.list ws)
  | record {fields others : Fields} :
    (∀ name, name ∈ fields.map Prod.fst ↔ name ∈ others.map Prod.fst) →
    (∀ (name : String) (v w : Value), fields.get? name = some v → others.get? name = some w →
      SameContent v w) →
      SameContent (.record fields) (.record others)

/-- Whether records at the same place of two values list their names in the same order. -/
def SameOrder (u v : Value) : Prop :=
  ∀ path fields others, u.at? path = some (.record fields) → v.at? path = some (.record others) →
    fields.map Prod.fst = others.map Prod.fst

end Value

/-- The number, with a zero without a sign for one with it. -/
def Number.unsigned : Number → Number
  | .negZero => .whole 0
  | x => x

theorem Number.same_iff {x y : Number} (hx : x.isFinite = true) :
    x.same y = true ↔ x.unsigned = y.unsigned := by
  cases x with
  | nan => cases hx
  | _ => cases y <;> grind [same, unsigned]

namespace Value

mutual

/-- The value with each zero without a sign, as JSON text writes it. -/
def unsigned : Value → Value
  | .number x => .number x.unsigned
  | .list vs => .list (unsignedItems vs)
  | .record fields => .record (unsignedFields fields)
  | v => v

/-- The items without negative zeros. -/
def unsignedItems : List Value → List Value
  | [] => []
  | v :: vs => unsigned v :: unsignedItems vs

/-- The fields without negative zeros in their values. -/
def unsignedFields : List (String × Value) → List (String × Value)
  | [] => []
  | (name, v) :: fields => (name, unsigned v) :: unsignedFields fields

end

theorem unsigned_list (vs : List Value) : unsigned (.list vs) = .list (vs.map unsigned) := by
  rw [unsigned]
  congr 1
  induction vs with
  | nil => rfl
  | cons v vs ih => rw [unsignedItems, ih, List.map_cons]

theorem unsigned_record (fields : Fields) :
    unsigned (.record fields) = .record (fields.map fun f => (f.1, unsigned f.2)) := by
  rw [unsigned]
  congr 1
  induction fields with
  | nil => rfl
  | cons f fields ih => rw [unsignedFields, ih, List.map_cons]

theorem get?_map_unsigned (fields : Fields) (name : String) :
    Fields.get? (fields.map fun f => (f.1, unsigned f.2)) name
      = (Fields.get? fields name).map unsigned := by
  induction fields with
  | nil => rfl
  | cons f fields ih =>
    obtain ⟨other, v⟩ := f
    simp only [Fields.get?, List.map_cons, lookup_cons_eq] at ih ⊢
    rw [ih]
    split_ifs <;> rfl

/-- The places of a value stay where they are. -/
theorem at?_unsigned (path : List Step) (v : Value) :
    v.unsigned.at? path = (v.at? path).map unsigned := by
  induction path generalizing v with
  | nil => rfl
  | cons step path ih =>
    cases v with
    | list vs =>
      rw [unsigned_list]
      cases step with
      | field name => rfl
      | index i =>
        rw [at?_index, at?_index, List.getElem?_map]
        cases vs[i]? with
        | none => rfl
        | some v => exact ih v
    | record fields =>
      rw [unsigned_record]
      cases step with
      | index i => rfl
      | field name =>
        rw [at?_field, at?_field, get?_map_unsigned]
        cases Fields.get? fields name with
        | none => rfl
        | some v => exact ih v
    | _ => cases step <;> rfl

theorem json?_unsigned {v : Value} (h : FromJson v) : v.unsigned.json? = v.json? := by
  induction h using FromJson.induction with
  | list vs h ih =>
    have hitems : jsonItems (vs.map unsigned) = jsonItems vs := by
      rw [jsonItems_eq, jsonItems_eq, List.map_map]
      exact List.map_congr_left fun v hv => congrArg (·.getD "null".toList) (ih v hv)
    rw [unsigned_list, json?, json?, hitems]
  | record fields h ih =>
    have hfields : jsonFields (fields.map fun f => (f.1, unsigned f.2)) = jsonFields fields := by
      clear h
      induction fields with
      | nil => rfl
      | cons f fields ihFields =>
        rw [List.forall_mem_cons] at ih
        rw [List.map_cons, jsonFields, jsonFields, ih.1, ihFields ih.2]
    rw [unsigned_record, json?, json?, hfields]
  | number x h => cases x <;> rfl
  | _ => rfl

theorem itemsKept_iff {vs : List Value} : ItemsKept vs ↔ ∀ v ∈ vs, v.KeptByJson := by
  induction vs with
  | nil => simp [ItemsKept]
  | cons v vs ih => simp [ItemsKept, ih]

theorem fieldsKept_iff {fields : Fields} : FieldsKept fields ↔ ∀ f ∈ fields, f.2.KeptByJson := by
  induction fields with
  | nil => simp [FieldsKept]
  | cons f fields ih => simp [FieldsKept, ih]

theorem kept_unsigned {v : Value} (h : FromJson v) : v.unsigned.KeptByJson := by
  induction h using FromJson.induction with
  | list vs h ih =>
    rw [unsigned_list, KeptByJson, itemsKept_iff]
    exact List.forall_mem_map.mpr ih
  | record fields h ih =>
    have hordered : Fields.Ordered (fields.map fun f => (f.1, unsigned f.2)) :=
      List.pairwise_map.mpr h.wellFormed.1
    rw [unsigned_record, KeptByJson, fieldsKept_iff]
    exact ⟨hordered, List.forall_mem_map.mpr ih⟩
  | number x h =>
    have hformat : x.Representable := h.wellFormed
    by_cases hzero : x = .negZero
    · subst hzero
      exact ⟨Number.representable_whole (by decide +kernel), rfl, by decide⟩
    · have hsame : x.unsigned = x := by cases x <;> first | rfl | exact absurd rfl hzero
      rw [unsigned, hsame]
      exact ⟨hformat, h.finite [] x rfl, hzero⟩
  | _ => trivial

/-- A reader that takes a JSON text between brackets comes to one value only. -/
theorem eq_of_jsonItem_eq {u v : Value} (hu : u.KeptByJson) (hv : v.KeptByJson)
    (h : jsonItem u = jsonItem v) : u = v := by
  let c : Yaml.Cursor := { rest := jsonItem u ++ [','], position := 1 }
  let depth := max (nesting u) (nesting v)
  have hreads (w : Value) (hw : w.KeptByJson) (hc : c.rest = jsonItem w ++ [',']) :=
    (Yaml.flowText_json w hw).reads depth 0 c [','] Nat.one_pos rfl hc
  obtain ⟨r, hr, hru⟩ := (hreads u hu rfl).of_fits (Nat.le_max_left _ _)
  obtain ⟨r', hr', hrv⟩ := (hreads v hv (by rw [← h])).of_fits (Nat.le_max_right _ _)
  obtain rfl : r = r' := Except.ok.inj (hr.symm.trans hr')
  exact Yaml.Linked.ofValue_injective (hru.value.symm.trans hrv.value)

theorem json?_eq_iff {u v : Value} (hu : FromJson u) (hv : FromJson v) :
    u.json? = v.json? ↔ u.unsigned = v.unsigned := by
  rw [← json?_unsigned hu, ← json?_unsigned hv]
  constructor
  · intro h
    have hitem : jsonItem u.unsigned = jsonItem v.unsigned := congrArg (·.getD "null".toList) h
    exact eq_of_jsonItem_eq (kept_unsigned hu) (kept_unsigned hv) hitem
  · exact congrArg json?

theorem length_of_unsigned {vs ws : List Value} (h : vs.map unsigned = ws.map unsigned) :
    vs.length = ws.length := by
  simpa using congrArg List.length h

theorem names_of_unsigned {fields others : Fields}
    (h : fields.map (fun f => (f.1, unsigned f.2)) = others.map fun f => (f.1, unsigned f.2)) :
    fields.map Prod.fst = others.map Prod.fst := by
  have hnames := congrArg (List.map Prod.fst) h
  simpa [List.map_map, Function.comp_def] using hnames

theorem sameContent_of_unsigned {u v : Value} (hu : FromJson u) (h : u.unsigned = v.unsigned) :
    SameContent u v := by
  induction hu using FromJson.induction generalizing v with
  | list vs hu ih =>
    rw [unsigned_list] at h
    cases v with
    | list ws =>
      rw [unsigned_list, list.injEq] at h
      refine .list (length_of_unsigned h) fun i v w hv hw => ?_
      have hi := congrArg (·[i]?) h
      simp only [List.getElem?_map, hv, hw, Option.map_some, Option.some.injEq] at hi
      exact ih v (List.mem_of_getElem? hv) hi
    | _ => cases h
  | record fields hu ih =>
    rw [unsigned_record] at h
    cases v with
    | record others =>
      rw [unsigned_record, record.injEq] at h
      refine .record (fun name => by rw [names_of_unsigned h]) fun name v w hv hw => ?_
      have hget := congrArg (Fields.get? · name) h
      simp only [get?_map_unsigned, hv, hw, Option.map_some, Option.some.injEq] at hget
      exact ih _ (Fields.mem_of_get? hv) hget
    | _ => cases h
  | null hu => cases v <;> cases h; exact .null
  | bool b hu => cases v <;> cases h; exact .bool b
  | text s hu => cases v <;> cases h; exact .text s
  | number x hu =>
    cases v with
    | number y => exact .number ((Number.same_iff (hu.finite [] x rfl)).mpr (number.inj h))
    | _ => cases h

theorem sameOrder_of_unsigned {u v : Value} (h : u.unsigned = v.unsigned) : SameOrder u v := by
  intro path fields others hu hv
  have hat := congrArg (at? path) h
  simp only [at?_unsigned, hu, hv, Option.map_some, Option.some.injEq, unsigned_record,
    record.injEq] at hat
  exact names_of_unsigned hat

theorem SameOrder.item {vs ws : List Value} (h : SameOrder (.list vs) (.list ws)) {i : Nat}
    {v w : Value} (hv : vs[i]? = some v) (hw : ws[i]? = some w) : SameOrder v w := by
  intro path fields others hfields hothers
  refine h (.index i :: path) fields others ?_ ?_
  · rw [at?_index, hv, Option.bind_some, hfields]
  · rw [at?_index, hw, Option.bind_some, hothers]

theorem SameOrder.field {fields others : Fields} (h : SameOrder (.record fields) (.record others))
    {name : String} {v w : Value} (hv : fields.get? name = some v)
    (hw : others.get? name = some w) : SameOrder v w := by
  intro path inner innerOthers hinner hothers
  refine h (.field name :: path) inner innerOthers ?_ ?_
  · rw [at?_field, hv, Option.bind_some, hinner]
  · rw [at?_field, hw, Option.bind_some, hothers]

/-- Fields with the same names in the same order are the same if they agree under each name. -/
theorem unsignedFields_ext {fields others : Fields} (hfields : fields.Ordered)
    (hothers : others.Ordered)
    (hnames : fields.map Prod.fst = others.map Prod.fst)
    (h : ∀ name v w, fields.get? name = some v → others.get? name = some w →
      v.unsigned = w.unsigned) :
    fields.map (fun f => (f.1, unsigned f.2)) = others.map fun f => (f.1, unsigned f.2) := by
  have hlength : fields.length = others.length := by simpa using congrArg List.length hnames
  refine List.ext_getElem (by simpa using hlength) fun i hi hi' => ?_
  rw [List.length_map] at hi hi'
  have hname : fields[i].1 = others[i].1 := by
    have := congrArg (·[i]?) hnames
    simpa [hi, hi'] using this
  have hget := Fields.get?_of_mem hfields (List.getElem_mem hi)
  have hget' := Fields.get?_of_mem hothers (List.getElem_mem hi')
  rw [hname] at hget
  rw [List.getElem_map, List.getElem_map, hname, h _ _ _ hget hget']

theorem unsigned_of_sameContent {u v : Value} (hu : FromJson u) (hv : FromJson v)
    (h : SameContent u v) (horder : SameOrder u v) : u.unsigned = v.unsigned := by
  induction h with
  | number hsame =>
    rw [unsigned, unsigned, (Number.same_iff (hu.finite [] _ rfl)).mp hsame]
  | @list vs ws hlength hitems ih =>
    rw [unsigned_list, unsigned_list]
    congr 1
    refine List.ext_getElem (by simpa using hlength) fun i hi hi' => ?_
    rw [List.length_map] at hi hi'
    rw [List.getElem_map, List.getElem_map]
    have hget : vs[i]? = some vs[i] := List.getElem?_eq_getElem hi
    have hget' : ws[i]? = some ws[i] := List.getElem?_eq_getElem hi'
    exact ih i _ _ hget hget' (hu.item (List.getElem_mem hi)) (hv.item (List.getElem_mem hi'))
      (horder.item hget hget')
  | @record fields others _ _ ih =>
    rw [unsigned_record, unsigned_record]
    congr 1
    refine unsignedFields_ext hu.wellFormed.1 hv.wellFormed.1 (horder [] _ _ rfl rfl) ?_
    intro name v w hget hget'
    exact ih name v w hget hget' (hu.field (Fields.mem_of_get? hget))
      (hv.field (Fields.mem_of_get? hget')) (horder.field hget hget')
  | _ => rfl

/-- JSON texts are the same exactly if the values have the same content, with their names in the
same order. -/
theorem unsigned_eq_iff {u v : Value} (hu : FromJson u) (hv : FromJson v) :
    u.unsigned = v.unsigned ↔ SameContent u v ∧ SameOrder u v :=
  ⟨fun h => ⟨sameContent_of_unsigned hu h, sameOrder_of_unsigned h⟩,
    fun h => unsigned_of_sameContent hu hv h.1 h.2⟩

theorem unsigned_of_sameScalar {u v : Value} (hu : FromJson u) (h : sameScalar u v = true) :
    u.unsigned = v.unsigned := by
  unfold sameScalar at h
  split at h
  · rfl
  · rfl
  · rw [of_decide_eq_true h]
  · rw [unsigned, unsigned, (Number.same_iff (hu.finite [] _ rfl)).mp h]
  · rw [of_decide_eq_true h]
  · cases h

theorem sameScalar_of_unsigned {u v : Value} (hu : FromJson u)
    (hcompound : (u.isCompound && v.isCompound) = false) (h : u.unsigned = v.unsigned) :
    sameScalar u v = true := by
  cases u with
  | null => cases v <;> cases h; rfl
  | bool b => cases v <;> cases h; exact decide_eq_true rfl
  | text s => cases v <;> cases h; exact decide_eq_true rfl
  | number x =>
    cases v with
    | number y => exact (Number.same_iff (hu.finite [] x rfl)).mpr (number.inj h)
    | _ => cases h
  | list vs =>
    cases v with
    | list ws => cases hcompound
    | _ => cases h
  | record fields =>
    cases v with
    | record others => cases hcompound
    | _ => cases h
  | _ => exact hu.isData.elim

theorem not_sameContent_absent {v : Value} : ¬ SameContent .absent v := nofun

/-- A found value matches another one exactly if it has the same content, with its names in the same
order. -/
theorem matchesValue_iff {actual expected : Value} (hactual : actual = .absent ∨ FromJson actual)
    (hexpected : FromJson expected) :
    actual.matchesValue expected = true
      ↔ SameContent actual expected ∧ SameOrder actual expected := by
  rw [matchesValue]
  rcases hactual with rfl | hactual
  · have hne : sameScalar .absent expected = false := by
      cases expected with
      | absent => exact absurd rfl hexpected.ne_absent
      | _ => rfl
    simp [isCompound, isObject, hne, not_sameContent_absent]
  · rw [← unsigned_eq_iff hactual hexpected]
    split_ifs with hcompound
    · rw [decide_eq_true_iff, json?_eq_iff hactual hexpected]
    · exact ⟨unsigned_of_sameScalar hactual,
        sameScalar_of_unsigned hactual (Bool.eq_false_iff.mpr hcompound)⟩

end Value

end ParamForm
