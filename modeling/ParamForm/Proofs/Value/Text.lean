import ParamForm.Value.Text

/-!
# Values without a text

A value has no text inside a sentence exactly if it is a record with a field `toString`, or a list
in which such a record stands, at any depth of lists (`Value.text?_eq_none_iff`).
-/

namespace ParamForm.Value

/-- Whether a value has no text: a record that hides the common one, or a list with such a record
in it. -/
inductive Mute : Value → Prop
  | record {fields : Fields} (h : Fields.has fields "toString" = true) : Mute (.record fields)
  | list {vs : List Value} {v : Value} (hmem : v ∈ vs) (h : Mute v) : Mute (.list vs)

theorem mute_record_iff {fields : Fields} :
    Mute (.record fields) ↔ Fields.has fields "toString" = true := by
  constructor
  · rintro ⟨h⟩
    exact h
  · exact .record

theorem mute_list_iff {vs : List Value} : Mute (.list vs) ↔ ∃ v ∈ vs, Mute v := by
  constructor
  · rintro ⟨⟩
    rename_i v h hmem
    exact ⟨v, hmem, h⟩
  · rintro ⟨v, hmem, h⟩
    exact .list hmem h

/-- The text of an element inside a list: a place that holds nothing is empty there. -/
def itemText? (v : Value) : Option (List Char) :=
  match v with
  | .absent | .null => some []
  | v => text? v

theorem itemTexts?_cons (v : Value) (vs : List Value) :
    itemTexts? (v :: vs) = (itemText? v).bind fun cs => (itemTexts? vs).map (cs :: ·) := by
  cases v <;> simp [itemTexts?, itemText?]

theorem itemText?_eq_none_iff {v : Value} : itemText? v = none ↔ text? v = none := by
  cases v with
  | absent => simp only [itemText?, text?, reduceCtorEq]
  | null => simp only [itemText?, text?, reduceCtorEq]
  | _ => exact Iff.rfl

mutual

theorem text?_eq_none_iff : ∀ v : Value, text? v = none ↔ Mute v
  | .list vs => by
    rw [text?, Option.map_eq_none_iff, itemTexts?_eq_none_iff vs, mute_list_iff]
  | .record fields => by
    rw [text?, mute_record_iff]
    split <;> simp_all
  | .absent | .null | .bool _ | .number _ | .text _ | .date _ | .bytes _ => by
    rw [text?]
    exact ⟨nofun, nofun⟩

theorem itemTexts?_eq_none_iff : ∀ vs : List Value, itemTexts? vs = none ↔ ∃ v ∈ vs, Mute v
  | [] => by simp [itemTexts?]
  | v :: vs => by
    have hhere : itemText? v = none ↔ Mute v :=
      itemText?_eq_none_iff.trans (text?_eq_none_iff v)
    simp only [List.mem_cons, exists_eq_or_imp]
    rw [itemTexts?_cons, ← hhere, ← itemTexts?_eq_none_iff vs]
    cases itemText? v with
    | none => simp
    | some cs => simp

end

end ParamForm.Value
