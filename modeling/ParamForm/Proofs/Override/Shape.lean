import ParamForm.Proofs.Override.Checked
import ParamForm.Proofs.Text.Blank

/-!
# The shape of overrides is stable

Every check of a part of an override is stable, and so is the check of overrides with the overrides
below them: accepted overrides, written as plain values, are accepted again and are the same
(`Override.rechecks_of_check`).
-/

namespace ParamForm

open Value Fields Checked

theorem checkText_stable : Stable checkText .text := by
  intro v s _ h
  cases v with
  | text t =>
    obtain rfl : t = s := by simpa [checkText] using h
    exact ⟨trivial, trivial, rfl⟩
  | _ => simp [checkText, mismatch_ne_ok] at h

theorem checkBool_stable : Stable checkBool .bool := by
  intro v b _ h
  cases v with
  | bool c =>
    obtain rfl : c = b := by simpa [checkBool] using h
    exact ⟨trivial, trivial, rfl⟩
  | _ => simp [checkBool, mismatch_ne_ok] at h

theorem checkNumber_stable (conditions : List ((Number → Bool) × String)) :
    Stable (checkNumber conditions) .number := by
  intro v x hv h
  cases v with
  | number y =>
    have hy := h
    unfold checkNumber at h
    simp only at h
    split_ifs at h with hnan
    · exact absurd h mismatch_ne_ok
    · obtain rfl : y = x := by
        split at h
        · simpa using h
        · simp at h
      exact ⟨hv, trivial, hy⟩
  | _ => simp [checkNumber, mismatch_ne_ok] at h

theorem checkLength_stable : Stable checkLength .number := checkNumber_stable _

theorem checkSort_stable : Stable checkSort .number := checkNumber_stable _

theorem checkSpan_stable : Stable checkSpan .number := checkNumber_stable _

theorem checkJson_stable : Stable checkJson id := by
  intro v w hv h
  unfold checkJson at h
  cases hdata : jsonData? v with
  | none => simp [hdata, fault] at h
  | some u =>
    obtain rfl : u = w := by simpa [hdata] using h
    obtain ⟨hwell, hisData, hagain⟩ := isJson_of_jsonData? hv hdata
    refine ⟨hwell, hisData, ?_⟩
    simp [checkJson, hagain]

theorem rechecks_key {key : String} (htrim : Text.trim key = key) (hempty : ¬ key.isEmpty = true) :
    Rechecks checkKey .text key := by
  refine ⟨trivial, trivial, ?_⟩
  unfold checkKey
  simp only [htrim, if_neg hempty]

theorem checkKey_stable : Stable checkKey .text := by
  intro v key _ h
  cases v with
  | text s =>
    unfold checkKey at h
    simp only at h
    split_ifs at h with hempty
    · simp [fault] at h
    · obtain rfl : Text.trim s = key := by simpa using h
      exact rechecks_key (Text.trim_trim s) hempty
  | _ => simp [checkKey, mismatch_ne_ok, fault] at h

theorem checkOperator_stable : Stable checkOperator fun o => .text o.name := by
  intro v o _ h
  refine ⟨trivial, trivial, ?_⟩
  cases o <;> rfl

theorem checkAction_stable : Stable checkAction fun a => .text a.name := by
  intro v a _ h
  refine ⟨trivial, trivial, ?_⟩
  cases a <;> rfl

/-- The fields of a rule and what they hold, in the order in which they are checked. -/
def Rule.slots (rule : Rule) : List (String × Option Value) :=
  [("jsonKey", some (.text rule.jsonKey)), ("operator", rule.operator.map fun o => .text o.name),
    ("value", some (id rule.value)), ("action", rule.action.map fun a => .text a.name)]

theorem Rule.toValue_eq (rule : Rule) : rule.toValue = .record (ofSlots rule.slots) := by
  simp [toValue, slots]

theorem Rule.areNames_slots (rule : Rule) : areNames (rule.slots.map Prod.fst) = true := by
  change areNames ["jsonKey", "operator", "value", "action"] = true
  decide

theorem Rule.rechecks {rule : Rule} (hkey : Rechecks checkKey .text rule.jsonKey)
    (hoperator : ∀ o ∈ rule.operator, Rechecks checkOperator (fun o => .text o.name) o)
    (hvalue : Rechecks checkJson id rule.value)
    (haction : ∀ a ∈ rule.action, Rechecks checkAction (fun a => .text a.name) a) :
    Rechecks checkRule toValue rule := by
  have hnames := rule.areNames_slots
  refine record_rechecks hnames rule.toValue_eq ?_ ?_
  · simp only [slots, List.forall_mem_cons]
    exact ⟨hkey.slot, slot_of_part hoperator, hvalue.slot, slot_of_part haction, by simp⟩
  · unfold checkRule
    rw [checkRecord_record, field_again hnames (by simp [slots]) hkey,
      part_again hnames (by simp [slots]) hoperator,
      field_again hnames (by simp [slots]) hvalue,
      part_again hnames (by simp [slots]) haction]
    rfl

theorem checkRule_stable : Stable checkRule Rule.toValue := by
  intro v rule hv h
  have h := checkRecord_eq_ok h
  simp only [seq_eq_ok, map_eq_ok] at h
  obtain ⟨_, action, ⟨_, value, ⟨_, operator, ⟨key, hkey, rfl⟩, hoperator, rfl⟩, hvalue, rfl⟩,
    haction, rfl⟩ := h
  exact Rule.rechecks (checkKey_stable.field hv hkey) (checkOperator_stable.part hv hoperator)
    (checkJson_stable.field hv hvalue) (checkAction_stable.part hv haction)

/-- The fields of an option and what they hold. -/
def Choice.slots (c : Choice) : List (String × Option Value) :=
  [("label", some (.text c.label)), ("value", some (id c.value))]

theorem Choice.toValue_eq (c : Choice) : c.toValue = .record (ofSlots c.slots) := rfl

theorem Choice.areNames_slots (c : Choice) : areNames (c.slots.map Prod.fst) = true := by
  change areNames ["label", "value"] = true
  decide

theorem checkChoice_stable : Stable checkChoice Choice.toValue := by
  intro v choice hv h
  have h := checkRecord_eq_ok h
  simp only [seq_eq_ok, map_eq_ok] at h
  obtain ⟨_, value, ⟨label, hlabel, rfl⟩, hvalue, rfl⟩ := h
  have hlabel := checkText_stable.field hv hlabel
  have hvalue := checkJson_stable.field hv hvalue
  have hnames := Choice.areNames_slots ⟨label, value⟩
  refine record_rechecks hnames (Choice.toValue_eq _) ?_ ?_
  · simp only [Choice.slots, List.forall_mem_cons]
    exact ⟨hlabel.slot, hvalue.slot, by simp⟩
  · unfold checkChoice
    rw [checkRecord_record, field_again hnames (by simp [Choice.slots]) hlabel,
      field_again hnames (by simp [Choice.slots]) hvalue]
    rfl

/-- The fields of constraints and what they hold, in the order in which they are checked. -/
def Constraints.slots (c : Constraints) : List (String × Option Value) :=
  [("enum", c.enum.map .list),
    ("options", c.options.map fun cs => .list (cs.map Choice.toValue)),
    ("pattern", c.pattern.map .text), ("min", c.min.map .number), ("max", c.max.map .number),
    ("minLength", c.minLength.map .number), ("maxLength", c.maxLength.map .number),
    ("defaultValue", c.defaultValue.map id), ("immutable", c.immutable.map .bool)]

theorem Constraints.toFields_eq (c : Constraints) : c.toFields = ofSlots c.slots := by
  simp [toFields, slots, part_map]

theorem checkEnum_stable : Stable (checkList checkJson) .list := by
  have := checkJson_stable.list
  simpa only [List.map_id] using this

/-- Constraints are checked again in any record that has their slots. -/
theorem checkConstraints_stable {v : Value} {c : Constraints} (hv : v.WellFormed)
    (h : checkConstraints v = .ok c) :
    (∀ s ∈ c.slots, ∀ v ∈ s.2, v.WellFormed ∧ v.IsData)
      ∧ ∀ slots, areNames (slots.map Prod.fst) = true → c.slots ⊆ slots →
        checkConstraints (.record (ofSlots slots)) = .ok c := by
  unfold checkConstraints at h
  simp only [seq_eq_ok, map_eq_ok] at h
  obtain ⟨_, immutable, ⟨_, defaultValue, ⟨_, maxLength, ⟨_, minLength, ⟨_, max, ⟨_, min,
    ⟨_, pattern, ⟨_, options, ⟨enum, henum, rfl⟩, hoptions, rfl⟩, hpattern, rfl⟩, hmin, rfl⟩,
    hmax, rfl⟩, hminLength, rfl⟩, hmaxLength, rfl⟩, hdefault, rfl⟩, himmutable, rfl⟩ := h
  have henum := checkEnum_stable.part hv henum
  have hoptions := checkChoice_stable.list.part hv hoptions
  have hpattern := checkText_stable.part hv hpattern
  have hmin := (checkNumber_stable []).part hv hmin
  have hmax := (checkNumber_stable []).part hv hmax
  have hminLength := checkLength_stable.part hv hminLength
  have hmaxLength := checkLength_stable.part hv hmaxLength
  have hdefault := checkJson_stable.part hv hdefault
  have himmutable := checkBool_stable.part hv himmutable
  refine ⟨?_, fun slots hnames hslots => ?_⟩
  · simp only [Constraints.slots, List.forall_mem_cons]
    exact ⟨slot_of_part henum, slot_of_part hoptions, slot_of_part hpattern, slot_of_part hmin,
      slot_of_part hmax, slot_of_part hminLength, slot_of_part hmaxLength, slot_of_part hdefault,
      slot_of_part himmutable, by simp⟩
  · simp only [Constraints.slots, List.cons_subset] at hslots
    obtain ⟨enumSlot, optionsSlot, patternSlot, minSlot, maxSlot, minLengthSlot, maxLengthSlot,
      defaultSlot, immutableSlot, -⟩ := hslots
    unfold checkConstraints
    rw [part_again hnames enumSlot henum, part_again hnames optionsSlot hoptions,
      part_again hnames patternSlot hpattern, part_again hnames minSlot hmin,
      part_again hnames maxSlot hmax, part_again hnames minLengthSlot hminLength,
      part_again hnames maxLengthSlot hmaxLength, part_again hnames defaultSlot hdefault,
      part_again hnames immutableSlot himmutable]
    rfl

/-- The fields of a validation and what they hold. -/
def ValidationPatch.slots (p : ValidationPatch) : List (String × Option Value) :=
  ("required", p.required.map .bool) :: p.constraints.slots

theorem ValidationPatch.toValue_eq (p : ValidationPatch) :
    p.toValue = .record (ofSlots p.slots) := by
  simp [toValue, slots, Constraints.toFields_eq]

theorem ValidationPatch.areNames_slots (p : ValidationPatch) :
    areNames (p.slots.map Prod.fst) = true := by
  change areNames ["required", "enum", "options", "pattern", "min", "max", "minLength", "maxLength",
    "defaultValue", "immutable"] = true
  decide

theorem checkValidation_stable : Stable checkValidation ValidationPatch.toValue := by
  intro v patch hv h
  have h := checkRecord_eq_ok h
  simp only [seq_eq_ok, map_eq_ok] at h
  obtain ⟨_, constraints, ⟨required, hrequired, rfl⟩, hconstraints, rfl⟩ := h
  have hrequired := checkBool_stable.part hv hrequired
  obtain ⟨hslots, hagain⟩ := checkConstraints_stable hv hconstraints
  have hnames := ValidationPatch.areNames_slots ⟨required, constraints⟩
  refine record_rechecks hnames (ValidationPatch.toValue_eq _) ?_ ?_
  · rw [ValidationPatch.slots, List.forall_mem_cons]
    exact ⟨slot_of_part hrequired, hslots⟩
  · unfold checkValidation
    rw [checkRecord_record, part_again hnames (by simp [ValidationPatch.slots]) hrequired,
      hagain _ hnames (by simp [ValidationPatch.slots])]
    rfl

/-- The fields of a style and what they hold. -/
def Style.slots (s : Style) : List (String × Option Value) :=
  [("colSpan", s.colSpan.map .number)]

theorem Style.toValue_eq (s : Style) : s.toValue = .record (ofSlots s.slots) := by
  simp [toValue, slots]

theorem Style.areNames_slots (s : Style) : areNames (s.slots.map Prod.fst) = true := by
  change areNames ["colSpan"] = true
  decide

theorem checkStyle_stable : Stable checkStyle Style.toValue := by
  intro v style hv h
  have h := checkRecord_eq_ok h
  obtain ⟨colSpan, hspan, rfl⟩ := map_eq_ok.mp h
  have hspan := checkSpan_stable.part hv hspan
  have hnames := Style.areNames_slots ⟨colSpan⟩
  refine record_rechecks hnames (Style.toValue_eq _) ?_ ?_
  · simp only [Style.slots, List.forall_mem_cons]
    exact ⟨slot_of_part hspan, by simp⟩
  · unfold checkStyle
    rw [checkRecord_record, part_again hnames (by simp [Style.slots]) hspan]
    rfl

theorem checkMethod_eq_ok {α : Type} {name expected : String} {check : Value → Checked α}
    {v : Value} {a : α} (h : v.checkMethod name expected check = .ok a) :
    v.checkField name check = .ok a := by
  cases v with
  | bytes bs => simp [checkMethod] at h
  | _ => exact h

/-- The fields of a group and what they hold. -/
def Group.slots (g : Group) : List (String × Option Value) :=
  [("label", some (.text g.label)), ("keys", some (.list (g.keys.map .text)))]

theorem Group.toValue_eq (g : Group) : g.toValue = .record (ofSlots g.slots) := rfl

theorem Group.areNames_slots (g : Group) : areNames (g.slots.map Prod.fst) = true := by
  change areNames ["label", "keys"] = true
  decide

theorem checkGroup_stable : Stable checkGroup Group.toValue := by
  intro v group hv h
  have h := checkRecord_eq_ok h
  simp only [seq_eq_ok, map_eq_ok] at h
  obtain ⟨_, keys, ⟨label, hlabel, rfl⟩, hkeys, rfl⟩ := h
  have hlabel := checkText_stable.field hv hlabel
  have hkeys := checkText_stable.list.field hv (checkMethod_eq_ok hkeys)
  have hnames := Group.areNames_slots ⟨label, keys⟩
  refine record_rechecks hnames (Group.toValue_eq _) ?_ ?_
  · simp only [Group.slots, List.forall_mem_cons]
    exact ⟨hlabel.slot, hkeys.slot, by simp⟩
  · unfold checkGroup
    rw [checkRecord_record, field_again hnames (by simp [Group.slots]) hlabel, checkMethod,
      field_again hnames (by simp [Group.slots]) hkeys]
    · rfl
    · simp

namespace Override

theorem toValues_eq (os : List Override) : toValues os = os.map toValue := by
  induction os with
  | nil => rfl
  | cons o os ih => rw [toValues, ih, List.map_cons]

theorem checkAll_eq (vs : List Value) (i : Nat) : checkAll i vs = checkEach checkOne i vs := by
  induction vs generalizing i with
  | nil => rw [checkAll, checkEach]
  | cons v vs ih => rw [checkAll, checkEach, ih]

theorem checkBelow_eq (v : Value) :
    (match _h : v.member "subParameters" with
      | .absent => .ok none
      | .list vs => (checkAll 0 vs).map some
      | other => other.mismatch "array" : Checked (Option (List Override)))
      = checkOptional (checkList checkOne) (v.member "subParameters") := by
  split
  · rename_i heq
    rw [heq, checkOptional]
  · rename_i vs heq
    simp only [heq, checkAll_eq, checkOptional, checkList]
  · rename_i habsent hlist
    generalize v.member "subParameters" = w at habsent hlist ⊢
    cases w with
    | absent => exact absurd rfl habsent
    | list vs => exact absurd rfl (hlist vs)
    | _ => rfl

theorem checkOne_eq (v : Value) : checkOne v = checkRecord (fun v =>
    Override.mk <$> v.checkField "jsonKey" checkKey
      <*> v.checkPart "label" checkText
      <*> v.checkPart "description" checkText
      <*> v.checkPart "uiType" checkText
      <*> v.checkPart "validate" checkValidation
      <*> v.checkPart "conditions" (checkList checkRule)
      <*> v.checkMethod "sort" "number" (checkOptional checkSort)
      <*> v.checkPart "subParameters" (checkList checkOne)
      <*> v.checkPart "disable" checkBool
      <*> v.checkPart "style" checkStyle
      <*> v.checkPart "subParameterGroupOption" (checkList checkGroup)
      <*> v.checkPart "additional" checkBool) v := by
  rw [checkOne]
  unfold checkRecord
  split_ifs
  · have hbelow := congrArg (Checked.under (.field "subParameters")) (checkBelow_eq v)
    simp only
    congr 5
    funext _
    exact hbelow
  · rfl

/-- The fields of an override and what they hold, in the order in which they are checked. -/
def slots (o : Override) : List (String × Option Value) :=
  [("jsonKey", some (.text o.jsonKey)), ("label", o.label.map .text),
    ("description", o.description.map .text), ("uiType", o.uiType.map .text),
    ("validate", o.validate.map ValidationPatch.toValue),
    ("conditions", o.conditions.map fun rules => .list (rules.map Rule.toValue)),
    ("sort", o.sort.map .number),
    ("subParameters", o.subParameters.map fun os => .list (os.map toValue)),
    ("disable", o.disable.map .bool), ("style", o.style.map Style.toValue),
    ("subParameterGroupOption",
      o.subParameterGroupOption.map fun gs => .list (gs.map Group.toValue)),
    ("additional", o.additional.map .bool)]

theorem subFields_eq (subs : Option (List Override)) :
    subFields subs = part "subParameters" (fun os => .list (os.map toValue)) subs := by
  cases subs with
  | none => rfl
  | some os => rw [subFields, toValues_eq, part]

theorem toValue_eq (o : Override) : o.toValue = .record (ofSlots o.slots) := by
  cases o
  simp [toValue, slots, subFields_eq]

theorem areNames_slots (o : Override) : areNames (o.slots.map Prod.fst) = true := by
  change areNames ["jsonKey", "label", "description", "uiType", "validate", "conditions", "sort",
    "subParameters", "disable", "style", "subParameterGroupOption", "additional"] = true
  decide

/-- What the parts of an override are made of: each is checked again. -/
structure PartsRecheck (o : Override) : Prop where
  jsonKey : Rechecks checkKey .text o.jsonKey
  label : ∀ s ∈ o.label, Rechecks checkText .text s
  description : ∀ s ∈ o.description, Rechecks checkText .text s
  uiType : ∀ s ∈ o.uiType, Rechecks checkText .text s
  validate : ∀ p ∈ o.validate, Rechecks checkValidation ValidationPatch.toValue p
  conditions : ∀ rules ∈ o.conditions,
    Rechecks (checkList checkRule) (fun rules => .list (rules.map Rule.toValue)) rules
  sort : ∀ x ∈ o.sort, Rechecks checkSort .number x
  subParameters : ∀ os ∈ o.subParameters,
    Rechecks (checkList checkOne) (fun os => .list (os.map toValue)) os
  disable : ∀ b ∈ o.disable, Rechecks checkBool .bool b
  style : ∀ s ∈ o.style, Rechecks checkStyle Style.toValue s
  groups : ∀ gs ∈ o.subParameterGroupOption,
    Rechecks (checkList checkGroup) (fun gs => .list (gs.map Group.toValue)) gs
  additional : ∀ b ∈ o.additional, Rechecks checkBool .bool b

theorem PartsRecheck.rechecks {o : Override} (h : o.PartsRecheck) :
    Rechecks checkOne toValue o := by
  have hnames := o.areNames_slots
  refine record_rechecks hnames o.toValue_eq ?_ ?_
  · simp only [slots, List.forall_mem_cons]
    exact ⟨h.jsonKey.slot, slot_of_part h.label, slot_of_part h.description,
      slot_of_part h.uiType, slot_of_part h.validate, slot_of_part h.conditions,
      slot_of_part h.sort, slot_of_part h.subParameters, slot_of_part h.disable,
      slot_of_part h.style, slot_of_part h.groups, slot_of_part h.additional, by simp⟩
  · have hsort : (Value.record (ofSlots o.slots)).checkField "sort" (checkOptional checkSort)
        = .ok o.sort := part_again hnames (by simp [slots]) h.sort
    rw [checkOne_eq, checkRecord_record, field_again hnames (by simp [slots]) h.jsonKey,
      part_again hnames (by simp [slots]) h.label,
      part_again hnames (by simp [slots]) h.description,
      part_again hnames (by simp [slots]) h.uiType,
      part_again hnames (by simp [slots]) h.validate,
      part_again hnames (by simp [slots]) h.conditions, checkMethod, hsort,
      part_again hnames (by simp [slots]) h.subParameters,
      part_again hnames (by simp [slots]) h.disable,
      part_again hnames (by simp [slots]) h.style,
      part_again hnames (by simp [slots]) h.groups,
      part_again hnames (by simp [slots]) h.additional]
    · cases o
      rfl
    · simp

/-- Whether lists of overrides that a check of well-formed values made are checked again. -/
def EachRechecks (os : List Override) : Prop :=
  ∀ ⦃vs : List Value⦄ ⦃i : Nat⦄, WellFormedItems vs → checkEach checkOne i vs = .ok os →
    ∀ o ∈ os, Rechecks checkOne toValue o

theorem parts_of_checkOne {v : Value} {o : Override} (hv : v.WellFormed) (h : checkOne v = .ok o)
    (hbelow : ∀ os ∈ o.subParameters, EachRechecks os) : o.PartsRecheck := by
  rw [checkOne_eq] at h
  have h := checkRecord_eq_ok h
  simp only [seq_eq_ok, map_eq_ok] at h
  obtain ⟨_, _, ⟨_, _, ⟨_, _, ⟨_, _, ⟨_, _, ⟨_, _, ⟨_, _, ⟨_, _, ⟨_, _, ⟨_, _, ⟨_, _,
    ⟨_, hkey, rfl⟩, hlabel, rfl⟩, hdescription, rfl⟩, huiType, rfl⟩, hvalidate, rfl⟩,
    hconditions, rfl⟩, hsort, rfl⟩, hsubs, rfl⟩, hdisable, rfl⟩, hstyle, rfl⟩, hgroups, rfl⟩,
    hadditional, rfl⟩ := h
  have hsort : v.checkPart "sort" checkSort = .ok _ := checkMethod_eq_ok hsort
  refine ⟨checkKey_stable.field hv hkey, checkText_stable.part hv hlabel,
    checkText_stable.part hv hdescription, checkText_stable.part hv huiType,
    checkValidation_stable.part hv hvalidate, checkRule_stable.list.part hv hconditions,
    checkSort_stable.part hv hsort, ?_, checkBool_stable.part hv hdisable,
    checkStyle_stable.part hv hstyle, checkGroup_stable.list.part hv hgroups,
    checkBool_stable.part hv hadditional⟩
  rintro os ⟨⟩
  obtain ⟨vs, hvs, hall⟩ := checkList_eq_ok (check_of_checkPart hsubs)
  have hwell : (Value.list vs).WellFormed := hvs ▸ hv.member "subParameters"
  exact list_rechecks (hbelow os rfl hwell hall)

mutual

theorem rechecks_of_checkOne :
    ∀ (o : Override) {v : Value}, v.WellFormed → checkOne v = .ok o → Rechecks checkOne toValue o
  | ⟨_, _, _, _, _, _, _, subs, _, _, _, _⟩, _, hv, h =>
    (parts_of_checkOne hv h (eachRechecks_below subs)).rechecks

theorem eachRechecks_below :
    ∀ (subs : Option (List Override)), ∀ os ∈ subs, EachRechecks os
  | none, _, h => by simp at h
  | some os, _, rfl => eachRechecks os

theorem eachRechecks : ∀ os : List Override, EachRechecks os
  | [], _, _, _, _ => by simp
  | o :: os, [], _, _, h => by simp [checkEach] at h
  | o :: os, v :: vs, i, hvs, h => by
    rw [checkEach, seq_eq_ok] at h
    obtain ⟨g, rest, hg, hrest, heq⟩ := h
    obtain ⟨first, hfirst, rfl⟩ := map_eq_ok.mp hg
    obtain ⟨hfirstEq, hrestEq⟩ := List.cons.inj heq
    rw [hfirstEq] at hfirst
    rw [hrestEq] at hrest
    rw [List.forall_mem_cons]
    exact ⟨rechecks_of_checkOne o hvs.1 (under_eq_ok.mp hfirst), eachRechecks os hvs.2 hrest⟩

end

/-- Overrides that were accepted are data, and are accepted again as they are. -/
theorem rechecks_of_check {v : Value} {os : List Override} (hv : v.WellFormed)
    (h : check v = .ok os) :
    (Value.list (toValues os)).WellFormed ∧ (Value.list (toValues os)).IsData
      ∧ check (.list (toValues os)) = .ok os := by
  cases v with
  | list vs =>
    rw [check, checkAll_eq] at h
    obtain ⟨hwell, hdata, hagain⟩ := list_rechecks (eachRechecks os hv h)
    rw [toValues_eq]
    refine ⟨hwell, hdata, ?_⟩
    rw [check, checkAll_eq]
    exact hagain
  | _ => simp [check, fault] at h

end Override

end ParamForm
