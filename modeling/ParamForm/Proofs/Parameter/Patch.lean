import Mathlib.Data.List.Induction
import Mathlib.Data.List.Perm.Basic
import ParamForm.Parameter.Patch

/-!
# Single steps of patching

The overrides of a list that count are those without a later one of their key
(`Parameter.winners_perm`). What patching does to one parameter is seen with the override that is
laid over it or with none (`Parameter.overlaid`): its sub-parameters are patched like any other
siblings (`Parameter.children_overlaid`), and no overrides leave a list as it is
(`Parameter.patchList_nil`).
-/

namespace ParamForm.Parameter

theorem winners_concat (os : List Override) (o : Override) :
    winners (os ++ [o]) = replaceByKey o (winners os) := by
  simp [winners, List.foldl_append]

theorem any_jsonKey_iff {key : String} {os : List Override} :
    os.any (·.jsonKey = key) = true ↔ key ∈ os.map (·.jsonKey) := by
  simp

/-- The overrides of a list without a later one of their key. -/
def surviving : List Override → List Override
  | [] => []
  | o :: os =>
    if os.any (·.jsonKey = o.jsonKey) then surviving os else o :: surviving os

theorem surviving_sublist (os : List Override) : (surviving os).Sublist os := by
  induction os with
  | nil => exact .slnil
  | cons o os ih =>
    rw [surviving]
    split_ifs
    · exact ih.cons o
    · exact ih.cons_cons o

theorem nodup_surviving (os : List Override) : ((surviving os).map (·.jsonKey)).Nodup := by
  induction os with
  | nil => exact .nil
  | cons o os ih =>
    rw [surviving]
    split_ifs with hlater
    · exact ih
    · rw [List.map_cons, List.nodup_cons]
      have hsub := (surviving_sublist os).map (·.jsonKey)
      exact ⟨fun h => hlater (any_jsonKey_iff.mpr (hsub.subset h)), ih⟩

theorem surviving_concat (os : List Override) (o : Override) :
    surviving (os ++ [o]) = (surviving os).filter (·.jsonKey ≠ o.jsonKey) ++ [o] := by
  induction os with
  | nil => simp [surviving]
  | cons other os ih =>
    rw [List.cons_append, surviving, surviving, List.any_append, ih]
    by_cases hlater : os.any (·.jsonKey = other.jsonKey)
    · simp [hlater]
    · by_cases hkey : o.jsonKey = other.jsonKey
      · simp [hlater, hkey]
      · simp [hlater, hkey, Ne.symm hkey]

theorem filter_ne_of_not_mem {os : List Override} {key : String}
    (h : key ∉ os.map (·.jsonKey)) : os.filter (·.jsonKey ≠ key) = os := by
  refine List.filter_eq_self.mpr fun o ho => decide_eq_true fun heq => h ?_
  exact heq ▸ List.mem_map_of_mem ho

theorem replaceByKey_perm {os : List Override} (hkeys : (os.map (·.jsonKey)).Nodup)
    (o : Override) :
    (replaceByKey o os).Perm (os.filter (·.jsonKey ≠ o.jsonKey) ++ [o]) := by
  induction os with
  | nil => exact .refl _
  | cons other os ih =>
    rw [List.map_cons, List.nodup_cons] at hkeys
    rw [replaceByKey]
    split_ifs with hsame
    · rw [hsame] at hkeys
      rw [List.filter_cons_of_neg (by simpa using hsame), filter_ne_of_not_mem hkeys.1]
      exact (List.perm_append_singleton o os).symm
    · rw [List.filter_cons_of_pos (by simpa using hsame)]
      exact (ih hkeys.2).cons other

/-- The overrides that count are those without a later one of their key. -/
theorem winners_perm (os : List Override) : (winners os).Perm (surviving os) := by
  induction os using List.reverseRecOn with
  | nil => exact .nil
  | append_singleton os o ih =>
    have hkeys : ((winners os).map (·.jsonKey)).Nodup :=
      (ih.map _).nodup_iff.mpr (nodup_surviving os)
    rw [winners_concat, surviving_concat]
    exact (replaceByKey_perm hkeys o).trans ((ih.filter _).append_right [o])

/-- The overrides that count are overrides of the list. -/
theorem winners_subset (os : List Override) : winners os ⊆ os :=
  List.Subset.trans (winners_perm os).subset (surviving_sublist os).subset

/-- A parameter with an override laid over it, if there is one. -/
def overlaid (p : Parameter) : Option Override → Parameter
  | some o => (patchOne p o).1
  | none => p

/-- What is found when an override is laid over a parameter, if there is one. -/
def foundOn (p : Parameter) : Option Override → List Diagnostic
  | some o => (patchOne p o).2
  | none => []

theorem patch_eq_ok {ps : List Parameter} {os : List Override}
    {made : List Parameter × List Diagnostic} (h : patch ps os = .ok made) :
    patchList ps os = made := by
  unfold patch at h
  split at h
  · exact Except.ok.inj h
  · cases h

theorem patchEach_cons (p : Parameter) (ps : List Parameter) (os : List Override) :
    patchEach (p :: ps) os
      = (p.overlaid (os.find? (·.jsonKey = p.jsonKey))
          :: (patchEach ps (os.filter (·.jsonKey ≠ p.jsonKey))).1,
        p.foundOn (os.find? (·.jsonKey = p.jsonKey))
          ++ (patchEach ps (os.filter (·.jsonKey ≠ p.jsonKey))).2) := by
  rw [patchEach, takeByKey]
  cases os.find? (·.jsonKey = p.jsonKey) with
  | none => rfl
  | some o => rfl

theorem patchEach_cons_fst (p : Parameter) (ps : List Parameter) (os : List Override) :
    (patchEach (p :: ps) os).1
      = p.overlaid (os.find? (·.jsonKey = p.jsonKey))
        :: (patchEach ps (os.filter (·.jsonKey ≠ p.jsonKey))).1 := by
  rw [patchEach_cons]

theorem patchEach_nil (ps : List Parameter) : (patchEach ps []).1 = ps := by
  induction ps with
  | nil => rw [patchEach]
  | cons p ps ih =>
    rw [patchEach_cons_fst, List.filter_nil, ih]
    rfl

theorem patchList_nil (ps : List Parameter) : (patchList ps []).1 = ps :=
  patchEach_nil ps

theorem patchOne_fst (p : Parameter) (o : Override) :
    (patchOne p o).1 = ⟨p.info.patched o, (patchSubs p.jsonKey p.subParameters o.subParameters).1,
      p.additionalParameter⟩ := by
  cases p with
  | mk info subs extra => rw [patchOne]

theorem isSome_patchSubs (key : String) (subs : Option (List Parameter))
    (os : Option (List Override)) : (patchSubs key subs os).1.isSome = subs.isSome := by
  rcases os with _ | os
  · rw [patchSubs]
  · rcases subs with _ | _ | ⟨p, ps⟩
    · rw [patchSubs]
      simp
    · rw [patchSubs]
      simp
    · rw [patchSubs]
      rfl

theorem getD_patchSubs (key : String) (subs : Option (List Parameter))
    (os : Option (List Override)) :
    (patchSubs key subs os).1.getD [] = (patchList (subs.getD []) (os.getD [])).1 := by
  rcases os with _ | os
  · rw [patchSubs, Option.getD_none, patchList_nil]
  · rcases subs with _ | _ | ⟨p, ps⟩
    · rw [patchSubs]
      · simp [patchList, patchEach]
      · simp
    · rw [patchSubs]
      · simp [patchList, patchEach]
      · simp
    · rw [patchSubs]
      rfl

/-- The overrides below an override are those of the sub-parameters; where there are none, these
stay. -/
theorem children_overlaid (p : Parameter) (o? : Option Override) :
    (p.overlaid o?).children
      = (patchList p.children ((o?.bind (·.subParameters)).getD [])).1 := by
  cases o? with
  | none => rw [overlaid, Option.bind_none, Option.getD_none, patchList_nil]
  | some o =>
    rw [overlaid, patchOne_fst, Option.bind_some]
    exact getD_patchSubs p.jsonKey p.subParameters o.subParameters

end ParamForm.Parameter
