import ParamForm.Proofs.Parameter.FurtherKeys
import ParamForm.Proofs.Parameter.Reorder
import ParamForm.Proofs.Parameter.Tour
import ParamForm.Proofs.Schema.Kind

/-!
# Kinds and structure

The kind of a parameter and what the parameter holds are read off its node in different places. They
agree (`Parameter.Coherent`) in every parameter that a derivation makes, those of further keys
included (`Schema.coherent_deriveRoot`). Sorting moves and numbers siblings and leaves all else
(`Parameter.Rearranged`), so they agree as well in every tree that is rendered without overrides
(`Rendering.coherent_base`).
-/

namespace ParamForm

namespace Parameter

/-- Whether the options of a parameter are its allowed values, one after another, with the labels of
the values. -/
def OptionsOf (values : List Value) (options : List Choice) : Prop :=
  List.Forall₂ (fun v c => c.value = v ∧ c.label = v.optionLabel) values options

/-- Whether what a parameter holds agrees with its kind. -/
structure Coherent (p : Parameter) : Prop where
  subParameters : p.subParameters.isSome ↔ p.kind = .object ∨ p.kind = .arrayOfObject
  siblings : ∀ subs ∈ p.subParameters, subs ≠ [] ∧ (subs.map (·.jsonKey)).Nodup
  additional : p.info.additional = some true ↔ p.additionalParameter.isSome
  additionalParameter : ∀ v ∈ p.additionalParameter,
    (p.kind = .object ∨ p.kind = .map) ∧ v.jsonKey = p.jsonKey ∧ v.required = false
  map : p.kind = .map → p.additionalParameter.isSome
  enum : p.kind = .enum ↔ ∃ vs, p.info.validate.constraints.enum = some vs ∧ vs ≠ []
  options : Option.Rel OptionsOf p.info.validate.constraints.enum
    p.info.validate.constraints.options

end Parameter

namespace Schema

open Value Parameter

variable {defaultSort : Number} {name key : String} {node : Value} {required : Bool}
  {p : Parameter} {found : List Diagnostic}

theorem isSome_subParameters_iff
    (h : deriveBelow defaultSort key node = .ok (p.subParameters, found)) :
    p.subParameters.isSome ↔ Kind.ofNode node = .object ∨ Kind.ofNode node = .arrayOfObject := by
  have howner : p.subParameters.isSome = (owner? (Kind.ofNode node) node).isSome := by
    unfold deriveBelow at h
    split at h
    · rename_i hnone
      obtain ⟨hsubs, -⟩ := Prod.mk.inj (Except.ok.inj h)
      rw [hnone, ← hsubs]
      rfl
    · rename_i owner hsome
      obtain ⟨made, -, heq⟩ := exists_ok_of_map h
      rw [hsome, ← (Prod.mk.inj heq).1]
      rfl
  have hshaped := shaped node
  rw [howner]
  generalize Kind.ofNode node = kind at hshaped ⊢
  cases hshaped with
  | arrayOfObject hitems _ => simp [owner?, hitems]
  | plain hkind =>
    revert hkind
    cases kind <;> simp [owner?]
  | _ => simp [owner?]

theorem siblings_of_deriveBelow (hwell : node.WellFormed)
    (h : deriveBelow defaultSort key node = .ok (p.subParameters, found)) :
    ∀ subs ∈ p.subParameters, subs ≠ [] ∧ (subs.map (·.jsonKey)).Nodup := by
  intro subs hsubs
  have hmade := deriveBelow_eq_ok h
  rw [Option.mem_def] at hsubs
  have hkind := (isSome_subParameters_iff h).mp (by simp [hsubs])
  rw [hsubs, Option.getD_some] at hmade
  refine ⟨?_, nodup_keys_of_deriveFields (ordered_ownFields (wellFormed_childOwner hwell)).1 hmade⟩
  have hobject := isObjectShaped_childOwner hkind
  simp only [isObjectShaped, Bool.and_eq_true] at hobject
  rintro rfl
  have hkeys := keys_of_deriveFields hmade
  exact ownFields_ne_nil hobject.2 (List.map_eq_nil_iff.mp hkeys.symm)

theorem further_of_deriveFurther
    (hfurther : deriveFurther defaultSort name key node = .ok (p.additionalParameter, found)) :
    p.additionalParameter.isSome = (furtherKeys? (Kind.ofNode node) node).isSome
      ∧ ∀ v ∈ p.additionalParameter,
        (Kind.ofNode node = .object ∨ Kind.ofNode node = .map)
          ∧ v.jsonKey = key ∧ v.required = false := by
  rcases deriveFurther_eq_ok hfurther with ⟨hkeys, hnone, -⟩ | ⟨further, w, hkeys, hmade, hw⟩
  · rw [hkeys, hnone]
    exact ⟨rfl, fun v hv => absurd hv (Option.not_mem_none v)⟩
  · rw [hkeys, hw]
    refine ⟨rfl, fun v hv => ?_⟩
    obtain rfl := Option.some.inj hv
    obtain ⟨_, _, _, hinfo, -⟩ := derive_eq_ok hmade
    obtain ⟨hkey, -, -, -, hvalidate⟩ := info_eq_ok hinfo
    refine ⟨?_, hkey, congrArg Validation.required hvalidate⟩
    revert hkeys
    cases Kind.ofNode node <;> simp [furtherKeys?]

theorem enum_constraints_iff :
    Kind.ofNode node = .enum ↔ ∃ vs, (constraints node).enum = some vs ∧ vs ≠ [] := by
  have hlist (vs : List Value) :
      (constraints node).enum = some vs ↔ node.member "enum" = .list vs := by
    rw [constraints]
    cases node.member "enum" <;> simp [asList?]
  simp only [Kind.ofNode_eq_enum_iff, hlist]

theorem options_constraints (node : Value) :
    Option.Rel OptionsOf (constraints node).enum (constraints node).options := by
  rw [constraints]
  cases (node.member "enum").asList? with
  | none => exact .none
  | some vs =>
    refine .some (List.forall₂_map_right_iff.mpr (List.forall₂_same.mpr fun v _ => ?_))
    exact ⟨rfl, rfl⟩

theorem wellFormed_furtherKeys {further : Value} (hwell : node.WellFormed)
    (h : furtherKeys? (Kind.ofNode node) node = some further) : further.WellFormed := by
  have hschema : valueSchema? node = some further := by
    revert h
    cases Kind.ofNode node <;> simp [furtherKeys?]
  rw [valueSchema?_eq_some hschema]
  exact hwell.member "additionalProperties"

/-- Kind and structure of a parameter agree, whatever node it was made from. -/
theorem coherent_of_steps (hwell : node.WellFormed) {foundBelow foundFurther : List Diagnostic}
    (hinfo : info defaultSort name key node required = .ok p.info)
    (hbelow : deriveBelow defaultSort key node = .ok (p.subParameters, foundBelow))
    (hfurther : deriveFurther defaultSort name key node
      = .ok (p.additionalParameter, foundFurther)) : Coherent p := by
  obtain ⟨w, -, heq⟩ := exists_widget_of_info hinfo
  have hkind : p.kind = Kind.ofNode node := congrArg ParameterInfo.kind heq
  have hkey : p.jsonKey = key := congrArg ParameterInfo.jsonKey heq
  have hadditional := congrArg ParameterInfo.additional heq
  have hconstraints := congrArg (·.validate.constraints) heq
  obtain ⟨hsome, hv⟩ := further_of_deriveFurther hfurther
  constructor
  case subParameters => rw [hkind, isSome_subParameters_iff hbelow]
  case siblings => exact siblings_of_deriveBelow hwell hbelow
  case additional =>
    rw [hadditional, hsome]
    cases furtherKeys? (Kind.ofNode node) node <;> simp
  case additionalParameter =>
    rw [hkind, hkey]
    exact hv
  case map =>
    intro hmap
    rw [hkind] at hmap
    have hshaped := shaped node
    rw [hmap] at hsome hshaped
    cases hshaped with
    | map hschema => rw [hsome, furtherKeys?, hschema, Option.isSome_some]
    | plain hplain => simp at hplain
  case enum =>
    rw [hkind, hconstraints]
    exact enum_constraints_iff
  case options =>
    rw [hconstraints]
    exact options_constraints node

theorem coherent_of_madeEach {fields : Fields} {ps : List Parameter}
    (hwell : WellFormedFields fields)
    (h : MadeEach (fun node p _ => node.WellFormed → ∀ q ∈ tourOne p, Coherent q)
      fields ps found) : ∀ q ∈ tour ps, Coherent q := by
  induction h with
  | nil => simp [tour]
  | cons hp _ ih =>
    rw [tour, List.forall_mem_append]
    exact ⟨hp hwell.1, ih hwell.2⟩

/-- Kind and structure agree in each parameter that a derivation makes. -/
theorem coherent_deriveRoot {schema : Value} {ps : List Parameter} (hwell : schema.WellFormed)
    (h : deriveRoot defaultSort schema = .ok (ps, found)) : ∀ q ∈ tour ps, Coherent q := by
  refine coherent_of_madeEach (ordered_ownFields hwell).2 (madeEach_deriveRoot ?_ h)
  intro name key node required p _ _ _ hinfo _ hbelow hfurther heach hextra hnode q hq
  rcases mem_tourOne.mp hq with rfl | hq | ⟨v, hv, hq⟩
  · exact coherent_of_steps hnode hinfo hbelow hfurther
  · exact coherent_of_madeEach (ordered_ownFields (wellFormed_childOwner hnode)).2 heach q hq
  · rw [Option.mem_def] at hv
    rw [hv] at hextra
    obtain ⟨further, hkeys, hone⟩ := hextra.exists_eq_some
    exact hone (wellFormed_furtherKeys hnode hkeys) q hq

end Schema

namespace Parameter

variable {defaultSort : Number}

/-- Whether a parameter is another one with another sort number, with its sub-parameters in another
order, and with whatever was done below these and to its further keys. -/
structure Rearranged (p q : Parameter) : Prop where
  info : q.info.unsorted = p.info.unsorted
  subParameters : Option.Rel
    (fun subs sorted => (sorted.map (·.jsonKey)).Perm (subs.map (·.jsonKey)))
    p.subParameters q.subParameters
  additionalParameter : Option.Rel (fun v w => w.info = v.info)
    p.additionalParameter q.additionalParameter

theorem Coherent.of_rearranged {p q : Parameter} (hp : Coherent p) (h : Rearranged p q) :
    Coherent q := by
  obtain ⟨info, subs, further⟩ := p
  obtain ⟨info', subs', further'⟩ := q
  obtain ⟨hinfo, hsubs, hfurther⟩ := h
  have hkind : info'.kind = info.kind := (congrArg ParameterInfo.kind hinfo :)
  have hkey : info'.jsonKey = info.jsonKey := (congrArg ParameterInfo.jsonKey hinfo :)
  have hadditional : info'.additional = info.additional :=
    (congrArg ParameterInfo.additional hinfo :)
  have hconstraints : info'.validate.constraints = info.validate.constraints :=
    (congrArg (·.validate.constraints) hinfo :)
  have hfurtherSome : further'.isSome = further.isSome := by
    cases hfurther <;> rfl
  constructor
  case subParameters =>
    have hsome : subs'.isSome = subs.isSome := by
      cases hsubs <;> rfl
    rw [hsome, kind, hkind]
    exact hp.subParameters
  case siblings =>
    have hsiblings := hp.siblings
    cases hsubs with
    | none => simp
    | @some subs sorted hperm =>
      rintro _ ⟨⟩
      obtain ⟨hne, hnodup⟩ := hsiblings subs rfl
      refine ⟨?_, hperm.nodup_iff.mpr hnodup⟩
      rintro rfl
      exact hne (List.map_eq_nil_iff.mp hperm.nil_eq.symm)
  case additional =>
    rw [hadditional, hfurtherSome]
    exact hp.additional
  case additionalParameter =>
    have hvalues := hp.additionalParameter
    rw [kind, jsonKey, hkind, hkey]
    cases hfurther with
    | none => simp
    | @some v w hsame =>
      rintro _ ⟨⟩
      obtain ⟨hkinds, hsameKey, hoptional⟩ := hvalues v rfl
      exact ⟨hkinds, (congrArg ParameterInfo.jsonKey hsame).trans hsameKey,
        (congrArg (·.validate.required) hsame).trans hoptional⟩
  case map =>
    rw [kind, hkind, hfurtherSome]
    exact hp.map
  case enum =>
    rw [kind, hkind, hconstraints]
    exact hp.enum
  case options =>
    rw [hconstraints]
    exact hp.options

theorem Rearranged.refl (p : Parameter) : Rearranged p p := by
  refine ⟨rfl, ?_, ?_⟩
  · cases p.subParameters with
    | none => exact .none
    | some subs => exact .some (.refl _)
  · cases p.additionalParameter with
    | none => exact .none
    | some v => exact .some rfl

theorem rearranged_subParameters (subs : Option (List Parameter)) : Option.Rel
    (fun subs sorted => (sorted.map (·.jsonKey)).Perm (subs.map (·.jsonKey)))
    subs (subs.map (arrange defaultSort)) := by
  cases subs with
  | none => exact .none
  | some ps => exact .some (keys_arrange_perm defaultSort ps)

theorem rearranged_arrangeValue (v : Parameter) : Rearranged v (arrangeValue defaultSort v) :=
  ⟨rfl, rearranged_subParameters v.subParameters, (Rearranged.refl v).additionalParameter⟩

theorem rearranged_arranged (number : Number) (p : Parameter) :
    Rearranged p ((arrangeBelow defaultSort p).withSort number) := by
  refine ⟨unsorted_arranged defaultSort number p, ?_, ?_⟩
  · rw [subParameters_arranged]
    exact rearranged_subParameters p.subParameters
  · rw [additionalParameter_arranged]
    cases p.additionalParameter with
    | none => exact .none
    | some v => exact .some rfl

/-- Each parameter of a sorted tree is one of the tree itself, rearranged. -/
theorem exists_of_mem_tour_arrange {ps : List Parameter} {q : Parameter}
    (h : q ∈ tour (arrange defaultSort ps)) : ∃ p ∈ tour ps, Rearranged p q := by
  induction ps using children_induction generalizing q with
  | step ps ih =>
    obtain ⟨_, hmem, hq⟩ := mem_tour.mp h
    obtain ⟨p, hp, number, rfl⟩ := exists_of_mem_arrange defaultSort hmem
    have hfound {r : Parameter} (hr : r ∈ tourOne p) : r ∈ tour ps := mem_tour.mpr ⟨p, hp, hr⟩
    rcases mem_tourOne.mp hq with rfl | hq | ⟨w, hw, hq⟩
    · exact ⟨p, hfound (mem_tourOne.mpr (.inl rfl)), rearranged_arranged number p⟩
    · obtain ⟨r, hr, hrq⟩ := (ih p hp).1 (children_arrangeBelow defaultSort p ▸ hq)
      exact ⟨r, hfound (mem_tourOne.mpr (.inr (.inl hr))), hrq⟩
    · rw [additionalParameter_arranged] at hw
      obtain ⟨v, hv, rfl⟩ := Option.map_eq_some_iff.mp hw
      have hfound {r : Parameter} (hr : r ∈ tourOne v) : r ∈ tour ps :=
        hfound (mem_tourOne.mpr (.inr (.inr ⟨v, hv, hr⟩)))
      rcases mem_tourOne.mp hq with rfl | hq | hq
      · exact ⟨v, hfound (mem_tourOne.mpr (.inl rfl)), rearranged_arrangeValue v⟩
      · obtain ⟨r, hr, hrq⟩ := (ih p hp).2 v hv (children_arrangeValue defaultSort v ▸ hq)
        exact ⟨r, hfound (mem_tourOne.mpr (.inr (.inl hr))), hrq⟩
      · exact ⟨q, hfound (mem_tourOne.mpr (.inr (.inr hq))), .refl q⟩

end Parameter

/-- Kind and structure agree in each parameter of a tree that is rendered without overrides, those
of further keys included. -/
theorem Rendering.coherent_base {options : Options} {schema : Value} {base : Rendering}
    (hwell : schema.WellFormed) (h : ofSchema options schema [] = .ok base) :
    ∀ q ∈ Parameter.tour base.parameters, Parameter.Coherent q := by
  obtain ⟨derived, hderived, hsorted⟩ := exists_derived h
  rw [hsorted]
  intro q hq
  obtain ⟨p, hp, hpq⟩ := Parameter.exists_of_mem_tour_arrange hq
  exact (Schema.coherent_deriveRoot hwell hderived p hp).of_rearranged hpq

/-- The values of a map with a list of objects, whose sub-parameters change places, and with further
keys of their own. -/
theorem Rendering.coherent_base_nested :
    let modes : Value := .list [.text "on", .bool false, .null]
    let row : Value := .record
      [("properties", .record
          [("n", .bool true), ("mode", .record [("enum", modes)])]),
        ("required", .list [.text "mode"])]
    let values : Value := .record
      [("properties", .record
          [("rows", .record [("type", .text "array"), ("items", row)])]),
        ("additionalProperties", .record [])]
    let schema : Value := .record [("properties", .record
      [("m", .record [("type", .text "object"), ("additionalProperties", values)])])]
    schema.WellFormed ∧ ∃ base, ofSchema .defaults schema [] = .ok base
      ∧ (∀ q ∈ Parameter.tour base.parameters, Parameter.Coherent q)
      ∧ (Parameter.tour base.parameters).map (fun q => (q.jsonKey, q.kind))
        = [("m", .map), ("m", .object), ("m.rows", .arrayOfObject), ("m.rows.mode", .enum),
          ("m.rows.n", .fallback), ("m", .fallback)] := by
  intro modes row values schema
  have hwell : schema.WellFormed := by
    simp [schema, values, row, modes, Value.WellFormed, Value.WellFormedFields,
      Value.WellFormedItems, Fields.Ordered, Fields.Before, arrayIndex?]
  obtain ⟨base, h⟩ : ∃ base, ofSchema .defaults schema [] = .ok base :=
    exists_ok (by decide +kernel)
  have htour : (ofSchema .defaults schema []).toOption.map (fun base =>
      (Parameter.tour base.parameters).map fun q => (q.jsonKey, q.kind))
        = some [("m", .map), ("m", .object), ("m.rows", .arrayOfObject), ("m.rows.mode", .enum),
          ("m.rows.n", .fallback), ("m", .fallback)] := by
    decide +kernel
  rw [h] at htour
  exact ⟨hwell, base, h, coherent_base hwell h, Option.some.inj htour⟩

end ParamForm
