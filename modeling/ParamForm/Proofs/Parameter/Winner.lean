import ParamForm.Proofs.Parameter.Shape

/-!
# Which override counts

Of the overrides of one key in a list the last one counts (`Override.winner?`), and the overrides
below it are those of the next level (`Parameter.levelOverrides`). Where siblings have distinct
keys, every field of a patched parameter is the one that its winner sets, or else the one of the
base (`Parameter.patch_chooses_fields`).
-/

namespace ParamForm

/-- The override of a key that counts in a list: the last one. -/
def Override.winner? (key : String) (os : List Override) : Option Override :=
  os.reverse.find? (·.jsonKey = key)

theorem Override.winner?_concat (key : String) (os : List Override) (o : Override) :
    winner? key (os ++ [o]) = if o.jsonKey = key then some o else winner? key os := by
  unfold winner?
  rw [List.reverse_append, List.reverse_singleton, List.singleton_append, List.find?_cons]
  by_cases hkey : o.jsonKey = key
  · simp [hkey]
  · simp [hkey]

namespace Parameter

open Override

theorem find?_replaceByKey (key : String) (o : Override) (os : List Override) :
    (replaceByKey o os).find? (·.jsonKey = key)
      = if o.jsonKey = key then some o else os.find? (·.jsonKey = key) := by
  induction os with
  | nil => by_cases hkey : o.jsonKey = key <;> simp [replaceByKey, hkey]
  | cons other os ih =>
    rw [replaceByKey]
    by_cases hsame : other.jsonKey = o.jsonKey
    · by_cases hkey : o.jsonKey = key <;> simp [hsame, hkey]
    · rw [if_neg hsame, List.find?_cons, List.find?_cons, ih]
      by_cases hkey : other.jsonKey = key
      · have hne : o.jsonKey ≠ key := fun h => hsame (hkey.trans h.symm)
        simp [hkey, hne]
      · simp [hkey]

/-- The index of a list of overrides answers a key with the last override of it. -/
theorem find?_winners (key : String) (os : List Override) :
    (winners os).find? (·.jsonKey = key) = winner? key os := by
  induction os using List.reverseRecOn with
  | nil => rfl
  | append_singleton os o ih =>
    rw [winners_concat, find?_replaceByKey, winner?_concat, ih]

theorem find?_filter_of_ne {key other : String} (h : key ≠ other) (os : List Override) :
    (os.filter (·.jsonKey ≠ other)).find? (·.jsonKey = key) = os.find? (·.jsonKey = key) := by
  rw [List.find?_filter]
  congr 1
  funext o
  by_cases hkey : o.jsonKey = key
  · simp [hkey, h]
  · simp [hkey]

/-- An override that is taken out for one parameter is not missed by another one of another key. -/
theorem patchEach_eq_map {ps : List Parameter} (h : (ps.map (·.jsonKey)).Nodup)
    (os : List Override) :
    (patchEach ps os).1 = ps.map fun p => p.overlaid (os.find? (·.jsonKey = p.jsonKey)) := by
  induction ps generalizing os with
  | nil =>
    rw [patchEach]
    rfl
  | cons p ps ih =>
    rw [List.map_cons, List.nodup_cons] at h
    rw [patchEach_cons_fst, ih h.2, List.map_cons]
    refine congrArg _ (List.map_congr_left fun q hq => ?_)
    have hne : q.jsonKey ≠ p.jsonKey := fun heq => h.1 (heq ▸ List.mem_map_of_mem hq)
    rw [find?_filter_of_ne hne]

theorem patchList_eq_map {ps : List Parameter} (h : (ps.map (·.jsonKey)).Nodup)
    (os : List Override) :
    (patchList ps os).1 = ps.map fun p => p.overlaid (winner? p.jsonKey os) := by
  simp only [← find?_winners]
  exact patchEach_eq_map h (winners os)

/-- Whether the siblings on each level of a tree have distinct keys. -/
def DistinctSiblings (ps : List Parameter) : Prop :=
  ∀ path, ((level path ps).map (·.jsonKey)).Nodup

theorem DistinctSiblings.nodup {ps : List Parameter} (h : DistinctSiblings ps) :
    (ps.map (·.jsonKey)).Nodup :=
  h []

theorem DistinctSiblings.children {ps : List Parameter} (h : DistinctSiblings ps) {i : Nat}
    {p : Parameter} (hp : ps[i]? = some p) : DistinctSiblings p.children := by
  intro path
  have hpath := h (i :: path)
  rw [level, hp] at hpath
  exact hpath

theorem distinctSiblings_iff {ps : List Parameter} : DistinctSiblings ps
    ↔ (ps.map (·.jsonKey)).Nodup ∧ ∀ p ∈ ps, DistinctSiblings p.children := by
  constructor
  · refine fun h => ⟨h.nodup, fun p hp => ?_⟩
    obtain ⟨i, hi⟩ := List.getElem?_of_mem hp
    exact h.children hi
  · rintro ⟨hkeys, hbelow⟩ path
    cases path with
    | nil => exact hkeys
    | cons i path =>
      rw [level]
      cases hp : ps[i]? with
      | none => exact List.nodup_nil
      | some p => exact hbelow p (List.mem_of_getElem? hp) path

/-- The overrides on a level: below the first, those of the winner of the parameter above. -/
def levelOverrides : List Nat → List Parameter → List Override → List Override
  | [], _, os => os
  | i :: path, ps, os =>
    match ps[i]? with
    | some p =>
      levelOverrides path p.children (((winner? p.jsonKey os).bind (·.subParameters)).getD [])
    | none => []

/-- Whether each validation field of `result` is the one that a patch sets, or else the one of
`base`. -/
structure ValidationChosen (patch? : Option ValidationPatch) (base result : Validation) :
    Prop where
  required : result.required = (patch?.bind (·.required)).getD base.required
  enum : result.constraints.enum = (patch?.bind (·.constraints.enum)).or base.constraints.enum
  options : result.constraints.options
    = (patch?.bind (·.constraints.options)).or base.constraints.options
  pattern : result.constraints.pattern
    = (patch?.bind (·.constraints.pattern)).or base.constraints.pattern
  min : result.constraints.min = (patch?.bind (·.constraints.min)).or base.constraints.min
  max : result.constraints.max = (patch?.bind (·.constraints.max)).or base.constraints.max
  minLength : result.constraints.minLength
    = (patch?.bind (·.constraints.minLength)).or base.constraints.minLength
  maxLength : result.constraints.maxLength
    = (patch?.bind (·.constraints.maxLength)).or base.constraints.maxLength
  defaultValue : result.constraints.defaultValue
    = (patch?.bind (·.constraints.defaultValue)).or base.constraints.defaultValue
  immutable : result.constraints.immutable
    = (patch?.bind (·.constraints.immutable)).or base.constraints.immutable

/-- Whether each field of `q` is the one that an override sets, if there is one and it does, or else
the one of `p`; without an override nothing at all differs. -/
structure FieldsChosen (o? : Option Override) (p q : Parameter) : Prop where
  label : q.info.label = (o?.bind (·.label)).getD p.info.label
  description : q.info.description = (o?.bind (·.description)).or p.info.description
  uiType : q.info.uiType = ((o?.bind (·.uiType)).map Widget.tag).getD p.info.uiType
  conditions : q.info.conditions = (o?.bind (·.conditions)).getD p.info.conditions
  sort : q.info.sort = (o?.bind (·.sort)).getD p.info.sort
  disable : q.info.disable = (o?.bind (·.disable)).or p.info.disable
  style : q.info.style = (o?.bind (·.style)).or p.info.style
  additional : q.info.additional = (o?.bind (·.additional)).or p.info.additional
  subParameterGroupOption : q.info.subParameterGroupOption
    = (o?.bind (·.subParameterGroupOption)).or p.info.subParameterGroupOption
  validate : ValidationChosen (o?.bind (·.validate)) p.info.validate q.info.validate
  unmatched : o? = none → q = p

theorem validationChosen_patched (base : Validation) (patch? : Option ValidationPatch) :
    ValidationChosen patch? base ((patch?.map base.patched).getD base) := by
  cases patch? with
  | none => constructor <;> rfl
  | some patch => constructor <;> simp [Validation.patched, Constraints.patched]

theorem fieldsChosen_overlaid (p : Parameter) (o? : Option Override) :
    FieldsChosen o? p (p.overlaid o?) := by
  cases o? with
  | none =>
    have hvalidate := validationChosen_patched p.info.validate none
    constructor
    case validate => exact hvalidate
    all_goals simp [overlaid]
  | some o =>
    have hvalidate := validationChosen_patched p.info.validate o.validate
    rw [overlaid, patchOne_fst]
    constructor
    case validate => exact hvalidate
    all_goals simp [ParameterInfo.patched]

theorem fieldsChosen_patchList {ps : List Parameter} (h : DistinctSiblings ps) (path : List Nat)
    (os : List Override) :
    List.Forall₂ (fun p q => FieldsChosen (winner? p.jsonKey (levelOverrides path ps os)) p q)
      (level path ps) (level path (patchList ps os).1) := by
  induction path generalizing ps os with
  | nil =>
    rw [level, level, patchList_eq_map h.nodup, List.forall₂_map_right_iff, List.forall₂_same]
    exact fun p _ => fieldsChosen_overlaid p _
  | cons i path ih =>
    rw [level, level, levelOverrides, patchList_eq_map h.nodup, List.getElem?_map]
    cases hp : ps[i]? with
    | none => exact .nil
    | some p =>
      simp only [Option.map_some, children_overlaid]
      exact ih (h.children hp) _

/-- In a tree of siblings with distinct keys, each field of each patched parameter is the one that
the winner on its level sets, or else the one of the base; a parameter without a winner stays as it
is, with everything below it. -/
theorem patch_chooses_fields {ps qs : List Parameter} {os : List Override}
    {found : List Diagnostic} (hkeys : DistinctSiblings ps) (h : patch ps os = .ok (qs, found))
    (path : List Nat) :
    List.Forall₂ (fun p q => FieldsChosen (winner? p.jsonKey (levelOverrides path ps os)) p q)
      (level path ps) (level path qs) := by
  have hqs : (patchList ps os).1 = qs := congrArg Prod.fst (patch_eq_ok h)
  rw [← hqs]
  exact fieldsChosen_patchList hkeys path os

/-- Of two overrides of one key the second counts, here with values that do not count as true, and
so do the overrides below it; an override of no parameter counts nowhere. -/
theorem patch_chooses_fields_twice :
    let ps := [group "a" [group "a.b" [], group "a.c" []], group "d" []]
    let below : List Override := [{ jsonKey := "a.b", label := some "" }]
    let os : List Override :=
      [{ jsonKey := "a", label := some "A", subParameters := some [{ jsonKey := "a.c" }] },
        { jsonKey := "a", disable := some false, subParameters := some below },
        { jsonKey := "x", label := some "X" }]
    DistinctSiblings ps ∧ ∃ qs found, patch ps os = .ok (qs, found)
      ∧ List.Forall₂ (fun p q => FieldsChosen (winner? p.jsonKey below) p q)
        [group "a.b" [], group "a.c" []] (level [0] qs)
      ∧ qs.map (fun q => (q.info.label, q.info.disable)) = [("a", some false), ("d", none)]
      ∧ (level [0] qs).map (·.info.label) = ["", "a.c"] := by
  intro ps below os
  have hnone : DistinctSiblings [] := distinctSiblings_iff.mpr ⟨List.nodup_nil, by simp⟩
  have hbelow : DistinctSiblings [group "a.b" [], group "a.c" []] :=
    distinctSiblings_iff.mpr ⟨by decide, by simpa [group, children] using hnone⟩
  have hkeys : DistinctSiblings ps :=
    distinctSiblings_iff.mpr ⟨by decide, by simpa [ps, group, children] using ⟨hbelow, hnone⟩⟩
  have hpatch : patch ps os = .ok (patchList ps os) := rfl
  exact ⟨hkeys, _, _, hpatch, patch_chooses_fields hkeys hpatch [0], by decide +kernel,
    by decide +kernel⟩

end Parameter

end ParamForm
