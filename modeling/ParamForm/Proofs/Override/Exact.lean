import ParamForm.Proofs.Failure
import ParamForm.Proofs.Override.Declared
import ParamForm.Proofs.Override.Shape

/-!
# The check of overrides is exact

Every check of a part decides the shape that is declared for it (`Override.Decides`), and a record
is read part by part (`Override.Assembles`). So the check of overrides accepts a JSON value exactly
if it conforms to what is declared, and what it makes of the value is the value without everything
that is not declared, which it accepts again as it is (`Override.ofValue_declared`).
-/

namespace ParamForm.Override

open Value Checked

/-- Whether a check accepts a value exactly if it is as declared, and then makes of it the value
with nothing but what is declared. -/
structure Decides {α : Type} (check : Value → Checked α) (plain : α → Value) (shape : Shape)
    (v : Value) : Prop where
  conforms : ∀ a, check v = .ok a → Conforms shape v ∧ plain a = clean shape v
  accepts : Conforms shape v → ∃ a, check v = .ok a

theorem decides_key (v : Value) (_ : FromJson v) : Decides checkKey .text .key v := by
  cases v with
  | text s =>
    by_cases hempty : (Text.trim s).isEmpty = true
    · have hblank : Text.trim s = "" := by simpa using hempty
      refine ⟨fun key h => ?_, fun h => ?_⟩
      · simp [checkKey, hempty, fault] at h
      · cases h with
        | key hkey => exact absurd hblank hkey
    · have hcheck : checkKey (.text s) = .ok (Text.trim s) := by simp [checkKey, hempty]
      refine ⟨fun key h => ?_, fun _ => ⟨_, hcheck⟩⟩
      rw [hcheck] at h
      cases h
      exact ⟨.key (by simpa using hempty), rfl⟩
  | _ => refine ⟨fun _ h => ?_, fun h => ?_⟩ <;> cases h

theorem decides_text (v : Value) (_ : FromJson v) : Decides checkText .text .text v := by
  cases v with
  | text s =>
    refine ⟨fun t h => ?_, fun _ => ⟨s, rfl⟩⟩
    cases h
    exact ⟨.text s, rfl⟩
  | _ => refine ⟨fun _ h => ?_, fun h => ?_⟩ <;> cases h

theorem decides_bool (v : Value) (_ : FromJson v) : Decides checkBool .bool .bool v := by
  cases v with
  | bool b =>
    refine ⟨fun c h => ?_, fun _ => ⟨b, rfl⟩⟩
    cases h
    exact ⟨.bool b, rfl⟩
  | _ => refine ⟨fun _ h => ?_, fun h => ?_⟩ <;> cases h

theorem decides_json (v : Value) (h : FromJson v) : Decides checkJson id .json v := by
  have hcheck : checkJson v = .ok v.withoutProto := by rw [checkJson, jsonData?_eq h]
  refine ⟨fun w hw => ?_, fun _ => ⟨_, hcheck⟩⟩
  rw [hcheck] at hw
  cases hw
  exact ⟨.json v, by rw [id, clean]⟩

/-- A check of numbers decides a bound that its conditions say. -/
theorem decides_number {conditions : List ((Number → Bool) × String)} {bound : Bound}
    (hbound : ∀ x : Number, x.isFinite = true →
      ((∀ c ∈ conditions, c.1 x = true) ↔ bound.Admits x)) {v : Value} (h : FromJson v) :
    Decides (checkNumber conditions) .number (.number bound) v := by
  cases v with
  | number x =>
    have hnan := h.isNan_eq_false
    have hnone : conditions.filter (fun c => !c.1 x) = [] ↔ bound.Admits x := by
      rw [← hbound x (h.finite [] x rfl), List.filter_eq_nil_iff]
      simp
    refine ⟨fun y hy => ?_, fun hconforms => ?_⟩
    · rw [checkNumber, hnan] at hy
      simp only [Bool.false_eq_true, if_false] at hy
      split at hy
      · rename_i hbroken
        cases hy
        exact ⟨.number (hnone.mp hbroken), rfl⟩
      · cases hy
    · cases hconforms with
      | number hadmits =>
        refine ⟨x, ?_⟩
        rw [checkNumber, hnan, hnone.mpr hadmits]
        rfl
  | _ => refine ⟨fun _ h => ?_, fun h => ?_⟩ <;> cases h

theorem isCount_iff {x : Number} (h : x.isFinite = true) :
    x.isInteger = true ∧ (!x.isNegative) = true ↔ Bound.count.Admits x := by
  cases x with
  | whole n =>
    simp only [Number.isInteger, Number.isNegative, Bound.Admits, Number.whole.injEq]
    constructor
    · rintro ⟨-, hn⟩
      exact .inr (Int.eq_ofNat_of_zero_le (by simpa using hn))
    · rintro (hzero | ⟨m, rfl⟩)
      · cases hzero
      · simp
  | negZero => simp [Number.isInteger, Number.isNegative, Bound.Admits]
  | fraction neg m k => simp [Number.isInteger, Bound.Admits]
  | infinity neg => cases h
  | nan => cases h

theorem isPositive_iff {x : Number} (h : x.isFinite = true) :
    x.isInteger = true ∧ x.isPositive = true ↔ Bound.positive.Admits x := by
  cases x with
  | whole n =>
    simp only [Number.isInteger, Number.isPositive, Bound.Admits, Number.whole.injEq]
    constructor
    · rintro ⟨-, hn⟩
      exact ⟨n.toNat, by simp at hn; omega⟩
    · rintro ⟨m, hm, rfl⟩
      simpa using hm
  | negZero => simp [Number.isInteger, Number.isPositive, Bound.Admits]
  | fraction neg m k => simp [Number.isInteger, Bound.Admits]
  | infinity neg => cases h
  | nan => cases h

theorem decides_length (v : Value) (h : FromJson v) :
    Decides checkLength .number (.number .count) v :=
  decides_number (fun _ hx => by rw [← isCount_iff hx]; simp) h

theorem decides_sort (v : Value) (h : FromJson v) :
    Decides checkSort .number (.number .count) v :=
  decides_number (fun _ hx => by rw [← isCount_iff hx]; simp) h

theorem decides_span (v : Value) (h : FromJson v) :
    Decides checkSpan .number (.number .positive) v :=
  decides_number (fun _ hx => by rw [← isPositive_iff hx]; simp) h

theorem decides_anyNumber (v : Value) (h : FromJson v) :
    Decides (checkNumber []) .number (.number .any) v :=
  decides_number (fun _ _ => by simp [Bound.Admits]) h

/-- A check for the name of one of a list decides the word list of the names. -/
theorem decides_word {α : Type} {check : Value → Checked α} (all : List α) {name : α → String}
    (hcheck : ∀ v a, check v = .ok a
      ↔ (v.asText?.bind fun s => all.find? (name · == s)) = some a) (v : Value) :
    Decides check (fun a => .text (name a)) (.word (all.map name)) v := by
  cases v with
  | text s =>
    refine ⟨fun a h => ?_, fun h => ?_⟩
    · have hfound : all.find? (name · == s) = some a := (hcheck _ a).mp h
      obtain rfl : name a = s := by simpa using List.find?_some hfound
      exact ⟨.word (List.mem_map_of_mem (List.mem_of_find?_eq_some hfound)), rfl⟩
    · cases h with
      | word hmem =>
        obtain ⟨a, ha, rfl⟩ := List.mem_map.mp hmem
        have hsome : (all.find? (name · == name a)).isSome := by
          rw [List.find?_isSome]
          exact ⟨a, ha, beq_self_eq_true _⟩
        obtain ⟨b, hb⟩ := Option.isSome_iff_exists.mp hsome
        exact ⟨b, (hcheck _ b).mpr hb⟩
  | _ =>
    refine ⟨fun a h => ?_, fun h => ?_⟩
    · cases (hcheck _ a).mp h
    · cases h

theorem decides_operator (v : Value) (_ : FromJson v) :
    Decides checkOperator (fun o => .text o.name) (.word ["==", "!=", "in"]) v := by
  refine decides_word [Operator.equal, .notEqual, .isIn] (fun v o => ?_) v
  change _ ↔ v.asText?.bind Operator.ofName? = some o
  unfold checkOperator
  cases v.asText?.bind Operator.ofName? <;> simp [fault]

theorem decides_action (v : Value) (_ : FromJson v) :
    Decides checkAction (fun a => .text a.name) (.word ["enable", "disable"]) v := by
  refine decides_word [Action.enable, .disable] (fun v a => ?_) v
  change _ ↔ v.asText?.bind Action.ofName? = some a
  unfold checkAction
  cases v.asText?.bind Action.ofName? <;> simp [fault]

/-- Whether a part of a record is as declared: it is there if it is required, and has its shape if
it is there. -/
structure Part.Met (fields : Fields) (part : Part) : Prop where
  required : part.required = true → part.name ∈ fields.map Prod.fst
  conforms : ∀ v, fields.get? part.name = some v → Conforms part.shape v

theorem conforms_record_iff {kind : RecordKind} {fields : Fields} :
    Conforms (.record kind) (.record fields) ↔ ∀ part ∈ kind.parts, part.Met fields := by
  constructor
  · rintro (_ | _ | _ | _ | _ | _ | _ | ⟨hrequired, hconforms⟩) part hpart
    exact ⟨hrequired part hpart, hconforms part hpart⟩
  · exact fun h => .record (fun part hpart => (h part hpart).required)
      fun part hpart => (h part hpart).conforms

/-- Slots that hold the parts of a record without what is not declared. -/
def slotsOf (fields : Fields) (parts : List Part) : List (String × Option Value) :=
  parts.map fun part => (part.name, (fields.get? part.name).map (clean part.shape))

theorem ofSlots_slotsOf (fields : Fields) (kind : RecordKind) :
    .record (Fields.ofSlots (slotsOf fields kind.parts))
      = clean (.record kind) (.record fields) := by
  rw [clean_record]
  congr 1
  induction kind.parts with
  | nil => rfl
  | cons part parts ih =>
    rw [slotsOf, List.map_cons, Fields.ofSlots_cons, ← slotsOf, ih, List.filterMap_cons]
    cases fields.get? part.name with
    | none => rfl
    | some v => rfl

/-- Whether a reading of parts of a record succeeds exactly if the parts are as declared. A property
of what it makes and of the slots of the record holds as soon as its precondition `wp` does: that it
holds of all data that the reading can put together, with the slots that they are written to. -/
structure Assembles {β : Type} (fields : Fields) (parts : List Part) (read : Checked β)
    (wp : (β → List (String × Option Value) → Prop) → Prop) : Prop where
  met : ∀ b, read = .ok b → ∀ part ∈ parts, part.Met fields
  made : ∀ b, read = .ok b → ∀ P, wp P → P b (slotsOf fields parts)
  accepts : (∀ part ∈ parts, part.Met fields) → ∃ b, read = .ok b

namespace Assembles

variable {α β : Type} {fields : Fields} {parts more : List Part} {x : Checked α}
  {wp wp' : (α → List (String × Option Value) → Prop) → Prop}

theorem imp (h : Assembles fields parts x wp) (himp : ∀ P, wp' P → wp P) :
    Assembles fields parts x wp' where
  met := h.met
  made a ha P hP := h.made a ha P (himp P hP)
  accepts := h.accepts

theorem map (f : α → β) (h : Assembles fields parts x wp) :
    Assembles fields parts (f <$> x) fun P => wp fun a => P (f a) where
  met b hb := by
    obtain ⟨a, ha, rfl⟩ := map_eq_ok.mp hb
    exact h.met a ha
  made b hb P hP := by
    obtain ⟨a, ha, rfl⟩ := map_eq_ok.mp hb
    exact h.made a ha _ hP
  accepts hmet := by
    obtain ⟨a, ha⟩ := h.accepts hmet
    exact ⟨f a, map_eq_ok.mpr ⟨a, ha, rfl⟩⟩

theorem seq {f : Checked (α → β)} {wpf : ((α → β) → List (String × Option Value) → Prop) → Prop}
    (hf : Assembles fields parts f wpf) (hx : Assembles fields more x wp) :
    Assembles fields (parts ++ more) (f <*> x) fun P =>
      wpf fun g s => wp fun a t => P (g a) (s ++ t) where
  met b hb := by
    obtain ⟨g, a, hg, ha, rfl⟩ := seq_eq_ok.mp hb
    exact List.forall_mem_append.mpr ⟨hf.met g hg, hx.met a ha⟩
  made b hb P hP := by
    obtain ⟨g, a, hg, ha, rfl⟩ := seq_eq_ok.mp hb
    rw [slotsOf, List.map_append]
    exact hx.made a ha _ (hf.made g hg _ hP)
  accepts hmet := by
    rw [List.forall_mem_append] at hmet
    obtain ⟨g, hg⟩ := hf.accepts hmet.1
    obtain ⟨a, ha⟩ := hx.accepts hmet.2
    exact ⟨g a, seq_eq_ok.mpr ⟨g, a, hg, ha, rfl⟩⟩

variable {check : Value → Checked α} {plain : α → Value} {shape : Shape} (name : String)

/-- What the check of a shape makes of a part that is there. -/
theorem met_and_slot_of_check {v : Value} (h : Decides check plain shape v)
    (hget : fields.get? name = some v) (required : Bool) {a : α} (ha : check v = .ok a) :
    Part.Met fields ⟨name, required, shape⟩
      ∧ slotsOf fields [⟨name, required, shape⟩] = [(name, some (plain a))] := by
  obtain ⟨hconforms, hplain⟩ := h.conforms a ha
  refine ⟨⟨fun _ => Fields.get?_isSome_iff.mp (by rw [hget]; rfl), fun w hw => ?_⟩, ?_⟩
  · cases hget.symm.trans hw
    exact hconforms
  · rw [slotsOf, List.map_singleton, hget, hplain, Option.map_some]

/-- A required part is read by the check of its shape. -/
theorem field (h : ∀ v, fields.get? name = some v → Decides check plain shape v)
    (habsent : ∀ a, check .absent ≠ .ok a) :
    Assembles fields [⟨name, true, shape⟩] ((Value.record fields).checkField name check)
      fun P => ∀ a, P a [(name, some (plain a))] := by
  have hread (a : α) (ha : (Value.record fields).checkField name check = .ok a) :
      ∃ v, fields.get? name = some v ∧ check v = .ok a := by
    replace ha : check ((fields.get? name).getD .absent) = .ok a := under_eq_ok.mp ha
    cases hget : fields.get? name with
    | none =>
      rw [hget] at ha
      exact absurd ha (habsent a)
    | some v =>
      rw [hget] at ha
      exact ⟨v, rfl, ha⟩
  refine ⟨fun a ha => ?_, fun a ha P hP => ?_, fun hmet => ?_⟩
  · obtain ⟨v, hget, hcheck⟩ := hread a ha
    exact List.forall_mem_singleton.mpr (met_and_slot_of_check name (h v hget) hget true hcheck).1
  · obtain ⟨v, hget, hcheck⟩ := hread a ha
    rw [(met_and_slot_of_check name (h v hget) hget true hcheck).2]
    exact hP a
  · obtain ⟨hrequired, hconforms⟩ := List.forall_mem_singleton.mp hmet
    obtain ⟨v, hget⟩ := Option.isSome_iff_exists.mp (Fields.get?_isSome_iff.mpr (hrequired rfl))
    obtain ⟨a, ha⟩ := (h v hget).accepts (hconforms v hget)
    refine ⟨a, under_eq_ok.mpr ?_⟩
    change check ((fields.get? name).getD .absent) = .ok a
    rw [hget]
    exact ha

/-- A part that may be missing is read by the check of its shape, if it is there. -/
theorem part (hjson : FromJson (.record fields))
    (h : ∀ v, fields.get? name = some v → Decides check plain shape v) :
    Assembles fields [⟨name, false, shape⟩] ((Value.record fields).checkPart name check)
      fun P => ∀ a?, P a? [(name, a?.map plain)] := by
  change Assembles fields _
    ((checkOptional check ((fields.get? name).getD .absent)).under (.field name)) _
  cases hget : fields.get? name with
  | none =>
    have hmet : Part.Met fields ⟨name, false, shape⟩ := ⟨nofun, by simp [hget]⟩
    have hslot : slotsOf fields [⟨name, false, shape⟩] = [(name, none)] := by
      rw [slotsOf, List.map_singleton, hget, Option.map_none]
    refine ⟨fun _ _ => List.forall_mem_singleton.mpr hmet, fun a? ha P hP => ?_,
      fun _ => ⟨none, rfl⟩⟩
    cases ha
    rw [hslot]
    exact hP none
  | some v =>
    have hread (a? : Option α) : (checkOptional check v).under (.field name) = .ok a?
        ↔ ∃ a, check v = .ok a ∧ some a = a? := by
      rw [under_eq_ok, checkOptional_of_ne_absent (hjson.of_get? hget).ne_absent]
      exact map_eq_ok
    refine ⟨fun a? ha => ?_, fun a? ha P hP => ?_, fun hmet => ?_⟩
    · obtain ⟨a, hcheck, rfl⟩ := (hread a?).mp ha
      have hmet := (met_and_slot_of_check name (h v hget) hget false hcheck).1
      exact List.forall_mem_singleton.mpr hmet
    · obtain ⟨a, hcheck, rfl⟩ := (hread a?).mp ha
      rw [(met_and_slot_of_check name (h v hget) hget false hcheck).2]
      exact hP (some a)
    · obtain ⟨a, ha⟩ := (h v hget).accepts ((List.forall_mem_singleton.mp hmet).conforms v hget)
      exact ⟨some a, (hread _).mpr ⟨a, ha, rfl⟩⟩

end Assembles

/-! ## Lists and records -/

section Lists

variable {α : Type} {check : Value → Checked α} {plain : α → Value} {item : Shape}
  {vs : List Value}

theorem conforms_of_checkEach (h : ∀ v ∈ vs, Decides check plain item v) {i : Nat} {as : List α}
    (has : checkEach check i vs = .ok as) :
    (∀ v ∈ vs, Conforms item v) ∧ as.map plain = vs.map (clean item) := by
  induction vs generalizing i as with
  | nil =>
    cases has
    exact ⟨List.forall_mem_nil _, rfl⟩
  | cons v vs ih =>
    rw [List.forall_mem_cons] at h
    rw [checkEach, seq_eq_ok] at has
    obtain ⟨_, rest, hfirst, hrest, rfl⟩ := has
    obtain ⟨a, ha, rfl⟩ := map_eq_ok.mp hfirst
    obtain ⟨hconforms, hplain⟩ := h.1.conforms a (under_eq_ok.mp ha)
    obtain ⟨hall, hplains⟩ := ih h.2 hrest
    refine ⟨List.forall_mem_cons.mpr ⟨hconforms, hall⟩, ?_⟩
    rw [List.map_cons, List.map_cons, hplain, hplains]

theorem exists_checkEach (h : ∀ v ∈ vs, Decides check plain item v)
    (hconforms : ∀ v ∈ vs, Conforms item v) (i : Nat) : ∃ as, checkEach check i vs = .ok as := by
  induction vs generalizing i with
  | nil => exact ⟨[], rfl⟩
  | cons v vs ih =>
    rw [List.forall_mem_cons] at h hconforms
    obtain ⟨a, ha⟩ := h.1.accepts hconforms.1
    obtain ⟨as, has⟩ := ih h.2 hconforms.2 (i + 1)
    refine ⟨a :: as, ?_⟩
    rw [checkEach, ha, has]
    rfl

/-- A check that decides the shape of the elements decides that of their list. -/
theorem Decides.ofItems {v : Value}
    (h : ∀ vs, v = .list vs → ∀ w ∈ vs, Decides check plain item w) :
    Decides (checkList check) (fun as => .list (as.map plain)) (.list item) v := by
  cases v with
  | list vs =>
    have h := h vs rfl
    constructor
    · intro as has
      obtain ⟨hconforms, hplain⟩ := conforms_of_checkEach h has
      exact ⟨.list hconforms, by rw [hplain, clean_list]⟩
    · rintro (_ | _ | _ | _ | _ | _ | hconforms)
      exact exists_checkEach h hconforms 0
  | _ => refine ⟨fun _ h => ?_, fun h => ?_⟩ <;> cases h

theorem decides_list (h : ∀ v, FromJson v → Decides check plain item v) (v : Value)
    (hv : FromJson v) :
    Decides (checkList check) (fun as => .list (as.map plain)) (.list item) v :=
  .ofItems fun _ heq w hw => h w ((heq ▸ hv).item hw)

end Lists

theorem decides_record {α : Type} {check : Value → Checked α} {plain : α → Value}
    {slots : α → List (String × Option Value)} {kind : RecordKind} {v : Value} (hv : FromJson v)
    (h : ∀ fields, v = .record fields → Assembles fields kind.parts (check v)
      fun P => ∀ a, P a (slots a)) (hplain : ∀ a, plain a = .record (Fields.ofSlots (slots a))) :
    Decides (checkRecord check) plain (.record kind) v := by
  cases v with
  | record fields =>
    have hassembles := h fields rfl
    refine ⟨fun a ha => ?_, fun hconforms => hassembles.accepts (conforms_record_iff.mp hconforms)⟩
    have hslots := hassembles.made a ha (fun a s => s = slots a) fun _ => rfl
    refine ⟨conforms_record_iff.mpr (hassembles.met a ha), ?_⟩
    rw [hplain, ← hslots, ofSlots_slotsOf]
  | bytes bs => exact hv.isData.elim
  | _ => refine ⟨fun _ h => ?_, fun h => ?_⟩ <;> cases h

theorem decides_rule (v : Value) (hv : FromJson v) :
    Decides checkRule Rule.toValue (.record .rule) v := by
  refine decides_record hv (fun fields heq => ?_) Rule.toValue_eq
  subst heq
  have hparts := Assembles.map Rule.mk (.field "jsonKey" (hv.under decides_key) nofun)
    |>.seq (.part "operator" hv (hv.under decides_operator))
    |>.seq (.field "value" (hv.under decides_json) nofun)
    |>.seq (.part "action" hv (hv.under decides_action))
  exact hparts.imp fun P hP key operator value action => hP ⟨key, operator, value, action⟩

theorem decides_choice (v : Value) (hv : FromJson v) :
    Decides checkChoice Choice.toValue (.record .choice) v := by
  refine decides_record hv (fun fields heq => ?_) Choice.toValue_eq
  subst heq
  have hparts := Assembles.map Choice.mk (.field "label" (hv.under decides_text) nofun)
    |>.seq (.field "value" (hv.under decides_json) nofun)
  exact hparts.imp fun P hP label value => hP ⟨label, value⟩

theorem decides_enum (v : Value) (hv : FromJson v) :
    Decides (checkList checkJson) .list (.list .json) v := by
  simpa using decides_list decides_json v hv

theorem assembles_constraints {fields : Fields} (hv : FromJson (.record fields)) :
    Assembles fields (RecordKind.validation.parts.drop 1) (checkConstraints (.record fields))
      fun P => ∀ c, P c c.slots := by
  have hparts := Assembles.map Constraints.mk (.part "enum" hv (hv.under decides_enum))
    |>.seq (.part "options" hv (hv.under (decides_list decides_choice)))
    |>.seq (.part "pattern" hv (hv.under decides_text))
    |>.seq (.part "min" hv (hv.under decides_anyNumber))
    |>.seq (.part "max" hv (hv.under decides_anyNumber))
    |>.seq (.part "minLength" hv (hv.under decides_length))
    |>.seq (.part "maxLength" hv (hv.under decides_length))
    |>.seq (.part "defaultValue" hv (hv.under decides_json))
    |>.seq (.part "immutable" hv (hv.under decides_bool))
  exact hparts.imp fun P hP enum options pattern min max minLength maxLength default immutable =>
    hP ⟨enum, options, pattern, min, max, minLength, maxLength, default, immutable⟩

theorem decides_validation (v : Value) (hv : FromJson v) :
    Decides checkValidation ValidationPatch.toValue (.record .validation) v := by
  refine decides_record hv (fun fields heq => ?_) ValidationPatch.toValue_eq
  subst heq
  have hparts := Assembles.map ValidationPatch.mk (.part "required" hv (hv.under decides_bool))
    |>.seq (assembles_constraints hv)
  exact hparts.imp fun P hP required constraints => hP ⟨required, constraints⟩

theorem decides_style (v : Value) (hv : FromJson v) :
    Decides checkStyle Style.toValue (.record .style) v := by
  refine decides_record hv (fun fields heq => ?_) Style.toValue_eq
  subst heq
  have hparts := Assembles.map Style.mk (.part "colSpan" hv (hv.under decides_span))
  exact hparts.imp fun P hP colSpan => hP ⟨colSpan⟩

theorem decides_group (v : Value) (hv : FromJson v) :
    Decides checkGroup Group.toValue (.record .group) v := by
  refine decides_record hv (fun fields heq => ?_) Group.toValue_eq
  subst heq
  have hparts := Assembles.map Group.mk (.field "label" (hv.under decides_text) nofun)
    |>.seq (.field "keys" (hv.under (decides_list decides_text)) nofun)
  exact hparts.imp fun P hP label keys => hP ⟨label, keys⟩

/-! ## Overrides -/

theorem decides_override_of {v : Value} (hv : FromJson v)
    (hsubs : ∀ fields : Fields, v = .record fields → ∀ w, fields.get? "subParameters" = some w →
      Decides (checkList checkOne) (fun os => .list (os.map toValue))
        (.list (.record .override)) w) :
    Decides checkOne toValue (.record .override) v := by
  rw [funext checkOne_eq]
  refine decides_record hv (fun fields heq => ?_) toValue_eq
  subst heq
  have hsubs := hsubs fields rfl
  have hparts := Assembles.map Override.mk (.field "jsonKey" (hv.under decides_key) nofun)
    |>.seq (.part "label" hv (hv.under decides_text))
    |>.seq (.part "description" hv (hv.under decides_text))
    |>.seq (.part "uiType" hv (hv.under decides_text))
    |>.seq (.part "validate" hv (hv.under decides_validation))
    |>.seq (.part "conditions" hv (hv.under (decides_list decides_rule)))
    |>.seq (.part "sort" hv (hv.under decides_sort))
    |>.seq (.part "subParameters" hv hsubs)
    |>.seq (.part "disable" hv (hv.under decides_bool))
    |>.seq (.part "style" hv (hv.under decides_style))
    |>.seq (.part "subParameterGroupOption" hv (hv.under (decides_list decides_group)))
    |>.seq (.part "additional" hv (hv.under decides_bool))
  exact hparts.imp fun P hP key label description uiType validate conditions sort subs disable style
      groups additional =>
    hP ⟨key, label, description, uiType, validate, conditions, sort, subs, disable, style, groups,
      additional⟩

/-- The check of an override decides its shape, and so does that of a list of them, at any depth:
the overrides below a record are the elements of one of its fields. -/
theorem decides_override {v : Value} (hv : FromJson v) :
    Decides checkOne toValue (.record .override) v
      ∧ Decides (checkList checkOne) (fun os => .list (os.map toValue))
        (.list (.record .override)) v := by
  induction hv using FromJson.induction with
  | list vs hv ih =>
    refine ⟨decides_override_of hv fun _ heq => ?_, .ofItems fun ws heq w hw => ?_⟩ <;> cases heq
    exact (ih w hw).1
  | record fields hv ih =>
    refine ⟨decides_override_of hv fun others heq w hw => ?_, .ofItems fun _ heq => ?_⟩ <;>
      cases heq
    exact (ih _ (Fields.mem_of_get? hw)).2
  | _ =>
    refine ⟨decides_override_of ‹_› fun _ heq => ?_, .ofItems fun _ heq => ?_⟩ <;> cases heq

theorem check_eq_ok_iff {v : Value} {os : List Override} :
    check v = .ok os ↔ checkList checkOne v = .ok os := by
  cases v with
  | list vs => rw [check, checkAll_eq, checkList]
  | _ => refine ⟨fun h => ?_, fun h => ?_⟩ <;> cases h

theorem ofValue_eq_ok_iff {v : Value} {os : List Override} :
    ofValue v = .ok os ↔ check v = .ok os := by
  unfold ofValue
  cases check v <;> simp

/-- A JSON value is accepted exactly if it is a list of overrides as declared, at all depths. What
is made of it is the value with nothing but what is declared, and is accepted again as it is. -/
theorem ofValue_declared {v : Value} (hv : FromJson v) :
    ((∃ os, ofValue v = .ok os) ↔ Conforms (.list (.record .override)) v)
      ∧ ∀ os, ofValue v = .ok os →
        .list (toValues os) = clean (.list (.record .override)) v
          ∧ ofValue (.list (toValues os)) = .ok os := by
  have hdecides := (decides_override hv).2
  simp only [ofValue_eq_ok_iff]
  refine ⟨⟨?_, fun hconforms => ?_⟩, fun os hos => ⟨?_, (rechecks_of_check hv.wellFormed hos).2.2⟩⟩
  · rintro ⟨os, hos⟩
    exact (hdecides.conforms os (check_eq_ok_iff.mp hos)).1
  · obtain ⟨os, hos⟩ := hdecides.accepts hconforms
    exact ⟨os, check_eq_ok_iff.mpr hos⟩
  · rw [toValues_eq]
    exact (hdecides.conforms os (check_eq_ok_iff.mp hos)).2

/-- An entry below another one, with a rule about a record. -/
theorem ofValue_declared_nested :
    let y : Value := .list [.bool true]
    let data : Value := .record [("__proto__", .null), ("y", y)]
    let rule : Value := .record [("value", data), ("jsonKey", .text "c ")]
    let inner : Value := .record [("conditions", .list [rule]), ("jsonKey", .text "b")]
    let v : Value := .list [.record [("x", .null), ("subParameters", .list [inner]),
      ("jsonKey", .text " a")]]
    let kept : Value := .record [("jsonKey", .text "c"), ("value", .record [("y", y)])]
    let w : Value := .list [.record [("jsonKey", .text "a"), ("subParameters", .list
      [.record [("jsonKey", .text "b"), ("conditions", .list [kept])]])]]
    FromJson v ∧ Conforms (.list (.record .override)) v
      ∧ ∃ os, ofValue v = .ok os ∧ .list (toValues os) = w ∧ ofValue w = .ok os := by
  intro y data rule inner v kept w
  have hleaf : FromJson .null ∧ (∀ b, FromJson (.bool b)) ∧ ∀ s, FromJson (.text s) :=
    ⟨fromJson_of_leaf nofun nofun trivial trivial nofun,
      fun _ => fromJson_of_leaf nofun nofun trivial trivial nofun,
      fun _ => fromJson_of_leaf nofun nofun trivial trivial nofun⟩
  have hindex : ∀ name ∈ ["__proto__", "y", "value", "jsonKey", "conditions", "x", "subParameters"],
      arrayIndex? name = none := by decide +kernel
  have hv : FromJson v := by
    simp [v, inner, rule, data, y, fromJson_list_iff, fromJson_record_iff, Fields.Ordered,
      Fields.Before, hindex, hleaf]
  obtain ⟨os, hos⟩ : ∃ os, ofValue v = .ok os := exists_ok (by decide +kernel)
  have hclean : clean (.list (.record .override)) v = w := by
    rfl
  obtain ⟨hconforms, hmade⟩ := ofValue_declared hv
  obtain ⟨hplain, hagain⟩ := hmade os hos
  rw [hclean] at hplain
  exact ⟨hv, hconforms.mp ⟨os, hos⟩, os, hos, hplain, hplain ▸ hagain⟩

end ParamForm.Override
