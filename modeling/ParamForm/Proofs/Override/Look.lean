import Mathlib.Data.Fintype.Basic
import ParamForm.Override.Document
import ParamForm.Proofs.Override.Shape
import ParamForm.Proofs.Yaml.Cycle

/-!
# The check of overrides reads nothing else

The check comes to the same for what is seen of a document of overrides as for all of it
(`Override.ofValue_seen`): each check regards a value only in the way in which the view looks at it
(`Override.Regards`), part by part. So it does not matter whether some part that is not seen is
inside itself (`Override.ofLoaded_loaded`).
-/

namespace ParamForm.Override

open Value Yaml

/-- Whether a check comes to the same for a value as for what is seen of it. -/
def Regards {α : Type} (look : Look) (check : Value → Checked α) (v : Value) : Prop :=
  check (view.seen look v) = check v

section Parts

variable {α β : Type} {look : Look} {v : Value}

theorem hasFields_seen : (view.seen look v).hasFields = v.hasFields :=
  eq_of_seen view Value.hasFields (fun _ _ => rfl) (fun _ _ => rfl) look v

theorem mismatch_seen (expected : String) :
    (view.seen look v).mismatch (α := α) expected = v.mismatch expected :=
  eq_of_seen view (fun v => v.mismatch (α := α) expected) (fun _ _ => rfl) (fun _ _ => rfl) look v

/-- The parts of binary data are numbers, and all is seen of a number. -/
theorem seen_byte (look : Look) (bs : List UInt8) (name : String) :
    view.seen look ((bytes bs).member name) = (bytes bs).member name := by
  rw [Value.member, Fields.get]
  cases hget : Fields.get? (bytes bs).entries name with
  | none => rfl
  | some w =>
    obtain ⟨b, rfl⟩ := mem_byteNumbers (mem_indexed (Fields.mem_of_get? hget)).1
    rfl

theorem member_seen {below : String → Look} (hbelow : view.fields look = some below)
    (name : String) : (view.seen look v).member name = view.seen (below name) (v.member name) := by
  cases v with
  | record fields =>
    rw [View.seen, hbelow]
    simp only [Value.member, Value.entries, Fields.get, Fields.get?]
    induction fields with
    | nil => rfl
    | cons f fields ih =>
      obtain ⟨other, w⟩ := f
      rw [View.seenFields, List.lookup_cons, List.lookup_cons]
      cases hname : name == other with
      | true =>
        rw [beq_iff_eq.mp hname]
        rfl
      | false => exact ih
  | bytes bs => exact (seen_byte _ bs name).symm
  | list vs =>
    rw [View.seen]
    split <;> rfl
  | _ => rfl

theorem checkOptional_eq (check : Value → Checked α) (v : Value) :
    checkOptional check v = if v.isAbsent then .ok none else (check v).map some := by
  cases v <;> rfl

namespace Regards

/-- A check that tells no list from another and no record from another regards a value in any way.
-/
theorem ofScalar {check : Value → Checked α} (hlist : ∀ vs ws, check (.list vs) = check (.list ws))
    (hrecord : ∀ fields parts, check (.record fields) = check (.record parts)) :
    Regards look check v :=
  eq_of_seen view check hlist hrecord look v

theorem map {f : α → β} {check : Value → Checked α} (h : Regards look check v) :
    Regards look (fun v => f <$> check v) v :=
  congrArg (f <$> ·) h

theorem seq {first : Value → Checked (α → β)} {second : Value → Checked α}
    (hfirst : Regards look first v) (hsecond : Regards look second v) :
    Regards look (fun v => first v <*> second v) v := by
  unfold Regards at hfirst hsecond ⊢
  simp only [hfirst, hsecond]

theorem field {name : String} {check : Value → Checked α} {below : String → Look}
    (hbelow : view.fields look = some below) (h : Regards (below name) check (v.member name)) :
    Regards look (checkField name check) v := by
  unfold Regards at h ⊢
  rw [checkField, checkField, member_seen hbelow, h]

theorem optional {check : Value → Checked α} (h : Regards look check v) :
    Regards look (checkOptional check) v := by
  have habsent : (view.seen look v).isAbsent = v.isAbsent :=
    eq_of_seen view isAbsent (fun _ _ => rfl) (fun _ _ => rfl) look v
  unfold Regards at h ⊢
  rw [checkOptional_eq, checkOptional_eq, habsent, h]

theorem part {name : String} {check : Value → Checked α} {below : String → Look}
    (hbelow : view.fields look = some below) (h : Regards (below name) check (v.member name)) :
    Regards look (checkPart name check) v :=
  field hbelow h.optional

theorem method {name expected : String} {check : Value → Checked α} {below : String → Look}
    (hbelow : view.fields look = some below) (h : Regards (below name) check (v.member name)) :
    Regards look (checkMethod name expected check) v := by
  have hfield := field hbelow h
  unfold Regards at hfield ⊢
  cases v with
  | record fields =>
    rw [View.seen, hbelow] at hfield ⊢
    exact hfield
  | list vs =>
    rw [View.seen]
    split <;> rfl
  | _ => rfl

theorem record {check : Value → Checked α} (h : Regards look check v) :
    Regards look (checkRecord check) v := by
  unfold Regards at h ⊢
  rw [checkRecord, checkRecord, hasFields_seen, h, mismatch_seen]

theorem each {check : Value → Checked α} {below : Look} {vs : List Value}
    (h : ∀ w ∈ vs, Regards below check w) (i : Nat) :
    checkEach check i (view.seenItems below vs) = checkEach check i vs := by
  induction vs generalizing i with
  | nil => rfl
  | cons w vs ih =>
    rw [List.forall_mem_cons] at h
    have hfirst : check (view.seen below w) = check w := h.1
    rw [View.seenItems, checkEach, checkEach, hfirst, ih h.2]

theorem list {check : Value → Checked α} {below : Look} (hbelow : view.items look = some below)
    (h : ∀ vs, v = .list vs → ∀ w ∈ vs, Regards below check w) :
    Regards look (checkList check) v := by
  cases v with
  | list vs =>
    unfold Regards
    rw [View.seen, hbelow]
    exact each (h vs rfl) 0
  | record fields =>
    unfold Regards
    rw [View.seen]
    split <;> rfl
  | _ => rfl

end Regards

theorem regards_json : Regards .value checkJson v :=
  congrArg checkJson (seen_eq_self rfl rfl v)

theorem regards_key : Regards look checkKey v :=
  .ofScalar (fun _ _ => rfl) fun _ _ => rfl

theorem regards_text : Regards look checkText v :=
  .ofScalar (fun _ _ => rfl) fun _ _ => rfl

theorem regards_bool : Regards look checkBool v :=
  .ofScalar (fun _ _ => rfl) fun _ _ => rfl

theorem regards_number (conditions : List ((Number → Bool) × String)) :
    Regards look (checkNumber conditions) v :=
  .ofScalar (fun _ _ => rfl) fun _ _ => rfl

theorem regards_rule : Regards .rule checkRule v := by
  refine .record (.seq (.seq (.seq (.map ?jsonKey) ?operator) ?value) ?action)
  case jsonKey => exact .field rfl regards_key
  case operator => exact .part rfl (.ofScalar (fun _ _ => rfl) fun _ _ => rfl)
  case value => exact .field rfl regards_json
  case action => exact .part rfl (.ofScalar (fun _ _ => rfl) fun _ _ => rfl)

theorem regards_choice : Regards .choice checkChoice v := by
  refine .record (.seq (.map ?label) ?value)
  case label => exact .field rfl regards_text
  case value => exact .field rfl regards_json

theorem regards_constraints : Regards .validation checkConstraints v := by
  refine .seq (.seq (.seq (.seq (.seq (.seq (.seq (.seq (.map ?enum) ?options) ?pattern) ?min) ?max)
    ?minLength) ?maxLength) ?defaultValue) ?immutable
  case enum => exact .part rfl (.list rfl fun _ _ _ _ => regards_json)
  case options => exact .part rfl (.list rfl fun _ _ _ _ => regards_choice)
  case pattern => exact .part rfl regards_text
  case defaultValue => exact .part rfl regards_json
  case immutable => exact .part rfl regards_bool
  all_goals exact .part rfl (regards_number _)

theorem regards_validation : Regards .validation checkValidation v :=
  .record (.seq (.map (.part rfl regards_bool)) regards_constraints)

theorem regards_style : Regards .style checkStyle v :=
  .record (.map (.part rfl (regards_number _)))

theorem regards_group : Regards .group checkGroup v := by
  refine .record (.seq (.map ?label) ?keys)
  case label => exact .field rfl regards_text
  case keys => exact .method rfl (.list rfl fun _ _ _ _ => regards_text)

end Parts

/-- The check of an override regards it as the view does if that of the overrides below it does. -/
theorem regards_override_of {v : Value}
    (hsubs : Regards .overrides (checkList checkOne) (v.member "subParameters")) :
    Regards .override checkOne v := by
  rw [funext checkOne_eq]
  refine .record (.seq (.seq (.seq (.seq (.seq (.seq (.seq (.seq (.seq (.seq (.seq (.map ?jsonKey)
    ?label) ?description) ?uiType) ?validate) ?conditions) ?sort) ?subParameters) ?disable) ?style)
    ?groups) ?additional)
  case jsonKey => exact .field rfl regards_key
  case validate => exact .part rfl regards_validation
  case conditions => exact .part rfl (.list rfl fun _ _ _ _ => regards_rule)
  case sort => exact .method rfl (.optional (regards_number _))
  case subParameters => exact .part rfl hsubs
  case style => exact .part rfl regards_style
  case groups => exact .part rfl (.list rfl fun _ _ _ _ => regards_group)
  case disable | additional => exact .part rfl regards_bool
  all_goals exact .part rfl regards_text

theorem weight_lt_of_mem {vs : List Value} {v : Value} (h : v ∈ vs) :
    weight v < itemsWeight vs := by
  induction vs with
  | nil => cases h
  | cons w vs ih =>
    rw [itemsWeight]
    rcases List.mem_cons.mp h with rfl | h
    · omega
    · have := ih h
      omega

/-- The check of an override regards it as the view does, by induction on its weight, as the
overrides below it weigh less. -/
theorem regards_override (v : Value) : Regards .override checkOne v := by
  induction hweight : weight v using Nat.strong_induction_on generalizing v with
  | _ n ih =>
    subst hweight
    refine regards_override_of (.list rfl fun vs hvs w hw => ih _ ?_ w rfl)
    exact (weight_lt_of_mem hw).trans (itemsWeight_member hvs)

theorem check_seen (v : Value) : check (view.seen .overrides v) = check v := by
  cases v with
  | list vs =>
    have hitems : view.items .overrides = some .override := rfl
    rw [View.seen, hitems, check, check, checkAll_eq, checkAll_eq]
    exact Regards.each (fun w _ => regards_override w) 0
  | _ => rfl

/-- The check comes to the same for what is seen of a document of overrides as for all of it. -/
theorem ofValue_seen (v : Value) : ofValue (view.seen .overrides v) = ofValue v := by
  rw [ofValue, ofValue, check_seen]

instance : Fintype Look where
  elems := Look.all.toFinset
  complete look := by cases look <;> decide

variable {g : Graph}

theorem looked?_of_loaded {v : Value} (h : g.loaded = .tree v) :
    looked? g = some (view.seen .overrides v) := by
  rw [looked?, Graph.spelled_of_loaded (by decide) h]

/-- The check of a document has no end exactly if something that it looks at is inside itself. -/
theorem looked?_eq_none_iff : looked? g = none ↔ g.InsideItself view .overrides := by
  rw [looked?, Graph.spelled_eq_none_iff (by decide), Graph.endless_iff]

/-- What becomes of a document of overrides depends only on what is seen of it. -/
theorem ofLoaded_loaded (g : Graph) :
    ofLoaded g.loaded = (looked? g).bind fun v => ofLoaded (.tree v) := by
  cases hloaded : g.loaded with
  | tree v =>
    rw [looked?_of_loaded hloaded, Option.bind_some]
    cases v with
    | list vs => exact congrArg some (ofValue_seen (.list vs)).symm
    | record fields => exact congrArg some (ofValue_seen (.record fields)).symm
    | _ => rfl
  | cyclic g' =>
    obtain ⟨rfl, hcyclic⟩ := Graph.eq_of_loaded_cyclic hloaded
    rw [ofLoaded]
    cases hlooked : looked? g' with
    | none => rfl
    | some v =>
      obtain ⟨vs, rfl⟩ | ⟨fields, rfl⟩ := Graph.collection_of_spelled hcyclic hlooked
      · rfl
      · rfl

/-- Nothing becomes of a document of overrides exactly if something that the check looks at is inside
itself. -/
theorem ofLoaded_eq_none_iff : ofLoaded g.loaded = none ↔ g.InsideItself view .overrides := by
  rw [ofLoaded_loaded, ← looked?_eq_none_iff, Option.bind_eq_none_iff]
  refine ⟨fun h => ?_, fun h v hv => ?_⟩
  · cases hlooked : looked? g with
    | none => rfl
    | some v =>
      have hnone := h v hlooked
      cases v <;> cases hnone
  · rw [h] at hv
    cases hv

end ParamForm.Override
