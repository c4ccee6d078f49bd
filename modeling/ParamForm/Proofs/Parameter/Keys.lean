import ParamForm.Proofs.Parameter.Derive
import ParamForm.Proofs.Parameter.Sort
import ParamForm.Proofs.Render

/-!
# The keys of a form

A form has the keys of its properties' paths (`Parameter.keys_perm`). As two paths can have one key,
the keys of a form are distinct exactly if no two of its properties have paths of the same segments
(`Parameter.nodup_keys_iff`).
-/

namespace ParamForm.Parameter

open Schema Value

variable {options : Options} {schema : Value} {base : Rendering}

theorem keys_eq_shown (ps : List Parameter) :
    keys ps = (shown (walk ps)).map fun visit => visit.2.jsonKey := by
  rw [keys, shown, List.map_map]
  rfl

theorem keys_eq_of_shows {defaultSort : Number} {ps : List Parameter} {qs : List Property}
    (h : List.Forall₂ (Shows defaultSort) (walk ps) qs) :
    keys ps = qs.map fun q => Key.ofPath q.path := by
  rw [keys, ← List.forall₂_eq_eq_eq, List.forall₂_map_left_iff, List.forall₂_map_right_iff]
  exact h.imp fun _ _ hshows => hshows.jsonKey

/-- The keys of a form are those of the paths of its properties. -/
theorem keys_perm (h : Rendering.ofSchema options schema [] = .ok base) :
    (keys base.parameters).Perm ((properties schema).map fun q => Key.ofPath q.path) := by
  obtain ⟨derived, hderived, hsorted⟩ := Rendering.exists_derived h
  rw [hsorted, ← keys_eq_of_shows (shows_walk hderived), keys_eq_shown, keys_eq_shown]
  exact (shown_walk_arrange options.defaultSort derived).map _

/-- The names on the path of a property are names of properties. -/
theorem exists_of_mem_path {q : Property} (h : Reached schema q) :
    ∀ name ∈ q.path, ∃ r ∈ properties schema, r.name = name := by
  induction h with
  | @root f hf =>
    intro name hname
    obtain rfl := List.mem_singleton.mp hname
    exact ⟨_, mem_properties_iff.mpr (.root hf), rfl⟩
  | @child q f hq hf ih =>
    intro name hname
    rcases List.mem_append.mp hname with hname | hname
    · exact ih name hname
    · obtain rfl := List.mem_singleton.mp hname
      exact ⟨_, mem_properties_iff.mpr (.child hq hf), rfl⟩

/-- The keys of a form are distinct exactly if the paths of its properties differ in their segments;
they are if no name is empty or has a dot in it. -/
theorem nodup_keys_iff (hwell : schema.WellFormed)
    (h : Rendering.ofSchema options schema [] = .ok base) :
    ((keys base.parameters).Nodup
        ↔ ∀ q ∈ properties schema, ∀ r ∈ properties schema,
          Key.segments q.path = Key.segments r.path → q.path = r.path)
      ∧ ((∀ q ∈ properties schema, q.name ≠ "" ∧ '.' ∉ q.name.toList) →
        (keys base.parameters).Nodup) := by
  have hiff : (keys base.parameters).Nodup ↔ ∀ q ∈ properties schema, ∀ r ∈ properties schema,
      Key.segments q.path = Key.segments r.path → q.path = r.path := by
    have hkeys : (properties schema).map (fun q => Key.ofPath q.path)
        = ((properties schema).map Property.path).map Key.ofPath := by
      rw [List.map_map]
      rfl
    rw [(keys_perm h).nodup_iff, hkeys, List.nodup_map_iff_inj_on (nodup_paths hwell)]
    simp only [List.forall_mem_map, Key.ofPath_eq_iff]
  refine ⟨hiff, fun hplain => hiff.mpr fun q hq r hr heq => ?_⟩
  have hsegments : ∀ q ∈ properties schema, Key.segments q.path = q.path := by
    intro q hq
    refine Key.segments_of_plain fun name hname => ?_
    obtain ⟨r, hr, rfl⟩ := exists_of_mem_path (mem_properties_iff.mp hq) name hname
    exact hplain r hr
  rw [← hsegments q hq, ← hsegments r hr, heq]

/-- Properties of one name, at the top and below a property with an empty name. -/
theorem nodup_keys_iff_empty_name :
    let inner : Value := .record [("a", .record [("type", .text "string")])]
    let schema : Value := .record [("properties", .record [("", .record [("properties", inner)]),
      ("a", .record [("type", .text "string")])])]
    schema.WellFormed
      ∧ ∃ base, Rendering.ofSchema .defaults schema [] = .ok base
        ∧ ¬ (keys base.parameters).Nodup := by
  intro inner schema
  have hwell : schema.WellFormed := by
    simp [schema, inner, WellFormed, WellFormedFields, Fields.Ordered, Fields.Before, arrayIndex?]
  obtain ⟨base, hbase⟩ : ∃ base, Rendering.ofSchema .defaults schema [] = .ok base :=
    exists_ok (by decide +kernel)
  have hpaths : (properties schema).map Property.path = [[""], ["", "a"], ["a"]] := by
    decide +kernel
  have hmem : ∀ path ∈ [[""], ["", "a"], ["a"]], ∃ q ∈ properties schema, q.path = path := by
    rw [← hpaths]
    exact fun path => List.mem_map.mp
  refine ⟨hwell, base, hbase, fun hnodup => ?_⟩
  obtain ⟨q, hq, hqpath⟩ := hmem ["", "a"] (by decide)
  obtain ⟨r, hr, hrpath⟩ := hmem ["a"] (by decide)
  have heq := (nodup_keys_iff hwell hbase).1.mp hnodup q hq r hr
  rw [hqpath, hrpath] at heq
  exact absurd (heq (by decide +kernel)) (by decide)

end ParamForm.Parameter
