import ParamForm.Override.Plain
import ParamForm.Override.Shape
import ParamForm.Proofs.Value.JsonData

/-!
# Checks that accept what they made

A check is stable if what it makes of a well-formed value is written as well-formed data of which it
makes the same (`Value.Stable`). Lists of a stable check are stable, and a record of parts whose
checks are stable passes its own check again (`Value.field_again`, `Value.part_again`).
-/

namespace ParamForm

namespace Checked

variable {α β : Type}

theorem map_eq_ok {f : α → β} {x : Checked α} {b : β} :
    f <$> x = .ok b ↔ ∃ a, x = .ok a ∧ f a = b := by
  cases x with
  | ok a => simp [Functor.map, map]
  | bad issues => simp [Functor.map, map]

theorem seq_eq_ok {f : Checked (α → β)} {x : Checked α} {b : β} :
    f <*> x = .ok b ↔ ∃ g a, f = .ok g ∧ x = .ok a ∧ g a = b := by
  cases f with
  | ok g => cases x <;> simp [Seq.seq, apply]
  | bad issues => cases x <;> simp [Seq.seq, apply]

theorem under_eq_ok {s : Step} {x : Checked α} {a : α} : x.under s = .ok a ↔ x = .ok a := by
  cases x <;> simp [under]

theorem mismatch_ne_ok {expected : String} {v : Value} {a : α} : v.mismatch expected ≠ .ok a := by
  cases v <;> simp [Value.mismatch, fault]

end Checked

namespace Fields

/-- The fields that are set among named slots. -/
def ofSlots (slots : List (String × Option Value)) : Fields :=
  slots.flatMap fun s => part s.1 id s.2

/-- Whether names are different and none of them is an array index. -/
def areNames (names : List String) : Bool :=
  names.Nodup && names.all fun name => (arrayIndex? name).isNone

@[simp]
theorem part_map {α : Type} (name : String) (plain : α → Value) (a? : Option α) :
    part name id (a?.map plain) = part name plain a? := by
  cases a? <;> rfl

@[simp]
theorem part_some (name : String) (v : Value) : part name id (some v) = [(name, v)] := rfl

@[simp]
theorem ofSlots_nil : ofSlots [] = [] := rfl

@[simp]
theorem ofSlots_cons (name : String) (v? : Option Value) (slots : List (String × Option Value)) :
    ofSlots ((name, v?) :: slots) = part name id v? ++ ofSlots slots := rfl

variable {slots : List (String × Option Value)}

theorem mem_ofSlots {f : String × Value} : f ∈ ofSlots slots ↔ (f.1, some f.2) ∈ slots := by
  unfold ofSlots
  rw [List.mem_flatMap]
  constructor
  · rintro ⟨⟨name, v?⟩, hmem, hf⟩
    cases v? with
    | none => simp [part] at hf
    | some v =>
      obtain rfl : f = (name, v) := by simpa [part] using hf
      exact hmem
  · intro hmem
    exact ⟨_, hmem, by simp [part]⟩

theorem nodup_of_areNames (hnames : areNames (slots.map Prod.fst) = true) :
    (slots.map Prod.fst).Nodup := by
  rw [areNames, Bool.and_eq_true] at hnames
  exact of_decide_eq_true hnames.1

theorem get?_ofSlots (hnames : (slots.map Prod.fst).Nodup) {name : String} {v? : Option Value}
    (h : (name, v?) ∈ slots) : get? (ofSlots slots) name = v? := by
  induction slots with
  | nil => simp at h
  | cons s slots ih =>
    obtain ⟨other, w?⟩ := s
    rw [List.map_cons, List.nodup_cons] at hnames
    rw [ofSlots_cons]
    rcases List.mem_cons.mp h with heq | hmem
    · obtain ⟨rfl, rfl⟩ := Prod.mk.inj heq
      cases v? with
      | some v => simp [part, get?]
      | none =>
        rw [part, List.nil_append, get?, List.lookup_eq_none_iff]
        intro f hf
        have hname := List.mem_map_of_mem (f := Prod.fst) (mem_ofSlots.mp hf)
        have hne : name ≠ f.1 := fun heq => hnames.1 (heq ▸ hname)
        simpa using hne
    · have hne : name ≠ other := by
        rintro rfl
        have hname := List.mem_map_of_mem (f := Prod.fst) hmem
        exact hnames.1 hname
      cases w? with
      | some w =>
        have hbeq : (name == other) = false := by simpa using hne
        simpa [part, get?, List.lookup_cons, hbeq] using ih hnames.2 hmem
      | none => exact ih hnames.2 hmem

theorem get_ofSlots (hnames : areNames (slots.map Prod.fst) = true) {name : String}
    {v? : Option Value} (h : (name, v?) ∈ slots) : get (ofSlots slots) name = v?.getD .absent := by
  rw [get, get?_ofSlots (nodup_of_areNames hnames) h]

theorem names_ofSlots : ((ofSlots slots).map Prod.fst).Sublist (slots.map Prod.fst) := by
  induction slots with
  | nil => exact List.Sublist.refl _
  | cons s slots ih =>
    obtain ⟨name, v?⟩ := s
    cases v? with
    | some v => exact ih.cons_cons name
    | none => exact ih.cons name

theorem ordered_ofSlots (hnames : areNames (slots.map Prod.fst) = true) :
    Ordered (ofSlots slots) := by
  have hnodup := (nodup_of_areNames hnames).sublist names_ofSlots
  rw [areNames, Bool.and_eq_true, List.all_eq_true] at hnames
  have hindex : ∀ name ∈ (ofSlots slots).map Prod.fst, arrayIndex? name = none :=
    fun name hname => by simpa using hnames.2 name (names_ofSlots.subset hname)
  unfold Ordered
  rw [← List.pairwise_map]
  refine List.Pairwise.imp_of_mem ?_ hnodup
  intro name other hname hother hne
  simpa [Before, hindex name hname, hindex other hother] using hne

end Fields

namespace Value

/-- A value that is written as well-formed data of which a check makes it again. -/
structure Rechecks {α : Type} (check : Value → Checked α) (plain : α → Value) (a : α) : Prop where
  wellFormed : (plain a).WellFormed
  isData : (plain a).IsData
  again : check (plain a) = .ok a

/-- A check of which everything that it makes of well-formed values is written so. -/
def Stable {α : Type} (check : Value → Checked α) (plain : α → Value) : Prop :=
  ∀ ⦃v a⦄, v.WellFormed → check v = .ok a → Rechecks check plain a

section Stable

variable {α : Type} {check : Value → Checked α} {plain : α → Value}

theorem Rechecks.ne_absent {a : α} (h : Rechecks check plain a) : plain a ≠ .absent := by
  intro habsent
  have hdata := h.isData
  rw [habsent] at hdata
  exact hdata

theorem checkOptional_of_ne_absent {v : Value} (h : v ≠ .absent) :
    checkOptional check v = (check v).map some := by
  cases v with
  | absent => exact absurd rfl h
  | _ => rfl

theorem check_of_checkPart {v : Value} {name : String} {a : α}
    (h : v.checkPart name check = .ok (some a)) : check (v.member name) = .ok a := by
  have h := Checked.under_eq_ok.mp h
  by_cases habsent : v.member name = .absent
  · rw [habsent] at h
    simp [checkOptional] at h
  · rw [checkOptional_of_ne_absent habsent] at h
    cases hresult : check (v.member name) with
    | ok b => simpa [hresult, Checked.map] using h
    | bad issues => simp [hresult, Checked.map] at h

/-- A part that is missing, or that is written as data which is checked again. -/
theorem checkOptional_again {a? : Option α} (h : ∀ a ∈ a?, Rechecks check plain a) :
    checkOptional check ((a?.map plain).getD .absent) = .ok a? := by
  cases a? with
  | none => rfl
  | some a =>
    have ha := h a rfl
    rw [Option.map_some, Option.getD_some, checkOptional_of_ne_absent ha.ne_absent, ha.again]
    rfl

theorem Stable.field (h : Stable check plain) {v : Value} (hv : v.WellFormed) {name : String}
    {a : α} (hcheck : v.checkField name check = .ok a) : Rechecks check plain a :=
  h (hv.member name) (Checked.under_eq_ok.mp hcheck)

theorem Stable.part (h : Stable check plain) {v : Value} (hv : v.WellFormed) {name : String}
    {a? : Option α} (hcheck : v.checkPart name check = .ok a?) :
    ∀ a ∈ a?, Rechecks check plain a := by
  rintro a ⟨⟩
  exact h (hv.member name) (check_of_checkPart hcheck)

theorem Rechecks.slot {a : α} (h : Rechecks check plain a) :
    ∀ v ∈ some (plain a), v.WellFormed ∧ v.IsData := by
  rintro v ⟨⟩
  exact ⟨h.wellFormed, h.isData⟩

theorem slot_of_part {a? : Option α} (h : ∀ a ∈ a?, Rechecks check plain a) :
    ∀ v ∈ a?.map plain, v.WellFormed ∧ v.IsData := by
  intro v hv
  obtain ⟨a, ha, rfl⟩ := Option.map_eq_some_iff.mp hv
  exact ⟨(h a ha).wellFormed, (h a ha).isData⟩

section Slots

variable {slots : List (String × Option Value)} {name : String}
  (hnames : Fields.areNames (slots.map Prod.fst) = true)

include hnames

theorem record_ofSlots
    (hslots : ∀ s ∈ slots, ∀ v ∈ s.2, v.WellFormed ∧ v.IsData) :
    (Value.record (Fields.ofSlots slots)).WellFormed
      ∧ (Value.record (Fields.ofSlots slots)).IsData := by
  have hfields : ∀ f ∈ Fields.ofSlots slots, f.2.WellFormed ∧ f.2.IsData := fun f hf =>
    hslots _ (Fields.mem_ofSlots.mp hf) _ rfl
  exact ⟨⟨Fields.ordered_ofSlots hnames, wellFormedFields_iff.mpr fun f hf => (hfields f hf).1⟩,
    fieldsAreData_iff.mpr fun f hf => (hfields f hf).2⟩

theorem field_again {a : α} (hmem : (name, some (plain a)) ∈ slots)
    (h : Rechecks check plain a) :
    (Value.record (Fields.ofSlots slots)).checkField name check = .ok a := by
  rw [checkField, Checked.under_eq_ok, member, entries, Fields.get_ofSlots hnames hmem]
  exact h.again

theorem part_again {a? : Option α} (hmem : (name, a?.map plain) ∈ slots)
    (h : ∀ a ∈ a?, Rechecks check plain a) :
    (Value.record (Fields.ofSlots slots)).checkPart name check = .ok a? := by
  rw [checkPart, checkField, Checked.under_eq_ok, member, entries,
    Fields.get_ofSlots hnames hmem]
  exact checkOptional_again h

theorem record_rechecks {a : α} (hplain : plain a = .record (Fields.ofSlots slots))
    (hslots : ∀ s ∈ slots, ∀ v ∈ s.2, v.WellFormed ∧ v.IsData)
    (hagain : check (.record (Fields.ofSlots slots)) = .ok a) : Rechecks check plain a where
  wellFormed := hplain ▸ (record_ofSlots hnames hslots).1
  isData := hplain ▸ (record_ofSlots hnames hslots).2
  again := hplain ▸ hagain

end Slots

theorem checkRecord_record (fields : Fields) :
    checkRecord check (.record fields) = check (.record fields) := rfl

theorem checkRecord_eq_ok {v : Value} {a : α} (h : checkRecord check v = .ok a) :
    check v = .ok a := by
  unfold checkRecord at h
  split_ifs at h
  · exact h
  · exact absurd h Checked.mismatch_ne_ok

theorem Stable.each (h : Stable check plain) :
    ∀ {vs : List Value} {i : Nat} {as : List α}, WellFormedItems vs →
      checkEach check i vs = .ok as → ∀ a ∈ as, Rechecks check plain a
  | [], _, _, _, hcheck => by
    obtain rfl : [] = _ := by simpa [checkEach] using hcheck
    simp
  | v :: vs, i, _, hvs, hcheck => by
    rw [checkEach, Checked.seq_eq_ok] at hcheck
    obtain ⟨g, as, hg, has, rfl⟩ := hcheck
    obtain ⟨a, ha, rfl⟩ := Checked.map_eq_ok.mp hg
    rw [List.forall_mem_cons]
    exact ⟨h hvs.1 (Checked.under_eq_ok.mp ha), h.each hvs.2 has⟩

theorem checkEach_again {as : List α} (h : ∀ a ∈ as, Rechecks check plain a) (i : Nat) :
    checkEach check i (as.map plain) = .ok as := by
  induction as generalizing i with
  | nil => rfl
  | cons a as ih =>
    rw [List.forall_mem_cons] at h
    rw [List.map_cons, checkEach, h.1.again, ih h.2]
    rfl

theorem list_rechecks {as : List α} (h : ∀ a ∈ as, Rechecks check plain a) :
    Rechecks (checkList check) (fun as => .list (as.map plain)) as where
  wellFormed := by
    refine wellFormedItems_iff.mpr fun v hv => ?_
    obtain ⟨a, ha, rfl⟩ := List.mem_map.mp hv
    exact (h a ha).wellFormed
  isData := by
    refine areData_iff.mpr fun v hv => ?_
    obtain ⟨a, ha, rfl⟩ := List.mem_map.mp hv
    exact (h a ha).isData
  again := checkEach_again h 0

theorem checkList_eq_ok {v : Value} {as : List α} (h : checkList check v = .ok as) :
    ∃ vs, v = .list vs ∧ checkEach check 0 vs = .ok as := by
  cases v with
  | list vs => exact ⟨vs, rfl, h⟩
  | _ => simp [checkList, Checked.mismatch_ne_ok] at h

theorem Stable.list (h : Stable check plain) :
    Stable (checkList check) fun as => .list (as.map plain) := by
  intro v as hv hcheck
  obtain ⟨vs, rfl, heach⟩ := checkList_eq_ok hcheck
  exact list_rechecks (h.each hv heach)

end Stable

end Value

end ParamForm
