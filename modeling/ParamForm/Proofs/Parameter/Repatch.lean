import Mathlib.Data.List.Forall2
import Mathlib.Logic.Relation
import ParamForm.Proofs.Parameter.Account
import ParamForm.Proofs.Parameter.Copyable

/-!
# Patching again, and in another order

An override only replaces, and so laying the same overrides over a patched tree changes nothing more
(`Parameter.patchList_twice`). Which override counts for a parameter depends on the place of an
override in its list only where the list holds another one of its key: lists of distinct keys may be
reordered, at any depth (`Override.Reordered`). Both are put together in `Parameter.patch_stable`.
-/

namespace ParamForm

theorem Constraints.patched_twice (base patch : Constraints) :
    (base.patched patch).patched patch = base.patched patch := by
  simp only [Constraints.patched, Option.orElse_eq_orElse, Option.orElse_eq_or, ← Option.or_assoc,
    Option.or_self]

theorem Validation.patched_twice (base : Validation) (patch : ValidationPatch) :
    (base.patched patch).patched patch = base.patched patch := by
  cases hrequired : patch.required <;>
    simp [Validation.patched, Constraints.patched_twice, hrequired]

theorem ParameterInfo.patched_twice (base : ParameterInfo) (o : Override) :
    (base.patched o).patched o = base.patched o := by
  have hvalidate : (o.validate.map (base.patched o).validate.patched).getD (base.patched o).validate
      = (base.patched o).validate := by
    cases hpatch : o.validate with
    | none => rfl
    | some patch => simp [ParameterInfo.patched, hpatch, Validation.patched_twice]
  have hgetD {α : Type} (new : Option α) (old : α) : new.getD (new.getD old) = new.getD old := by
    cases new <;> rfl
  rw [ParameterInfo.patched, hvalidate]
  simp only [ParameterInfo.patched, Option.orElse_eq_orElse, Option.orElse_eq_or,
    ← Option.or_assoc, Option.or_self, hgetD]

namespace Parameter

mutual

/-- An override changes nothing more the second time. The induction follows the parameters, as
patching does, with any overrides laid over them. -/
theorem patchOne_twice :
    ∀ (p : Parameter) (o : Override), patchOne (patchOne p o).1 o = patchOne p o
  | ⟨info, subs, extra⟩, o => by
    have hsubs := patchSubs_twice info.jsonKey subs o.subParameters
    have hkey : (info.patched o).jsonKey = info.jsonKey := rfl
    rw [patchOne, patchOne, hkey, hsubs, ParameterInfo.patched_twice]

theorem patchSubs_twice :
    ∀ (key : String) (subs : Option (List Parameter)) (os : Option (List Override)),
      patchSubs key (patchSubs key subs os).1 os = patchSubs key subs os
  | _, subs, none => by rw [patchSubs, patchSubs]
  | key, none, some os => by
    have hnone : (patchSubs key none (some os)).1 = none := by
      rw [patchSubs]
      simp
    rw [hnone]
  | key, some [], some os => by
    have hnil : (patchSubs key (some []) (some os)).1 = some [] := by
      rw [patchSubs]
      simp
    rw [hnil]
  | _, some (p :: ps), some os => by
    have heach := patchEach_twice (p :: ps) (winners os)
    rw [patchSubs]
    rw [patchEach_cons] at heach ⊢
    rw [patchSubs, heach]

theorem patchEach_twice :
    ∀ (ps : List Parameter) (os : List Override),
      patchEach (patchEach ps os).1 os = patchEach ps os
  | [], os => by rw [patchEach, patchEach]
  | p :: ps, os => by
    have hkey : (p.overlaid (os.find? (·.jsonKey = p.jsonKey))).jsonKey = p.jsonKey :=
      (sameFrame_overlaid p _).jsonKey
    have hrest := patchEach_twice ps (os.filter (·.jsonKey ≠ p.jsonKey))
    rw [patchEach_cons, patchEach_cons, hkey, hrest]
    cases os.find? (·.jsonKey = p.jsonKey) with
    | none => rfl
    | some o => simp only [overlaid, foundOn, patchOne_twice p o]

end

/-- Overrides that are laid over a tree again change nothing, and the same is found. -/
theorem patchList_twice (ps : List Parameter) (os : List Override) :
    patchList (patchList ps os).1 os = patchList ps os := by
  simp only [patchList, patchEach_twice]

end Parameter

namespace Override

/-- Whether two lists of overrides differ in the order of one list of distinct keys: the list
itself, or one below an override in it. -/
inductive Permuted : List Override → List Override → Prop
  | here {os os' : List Override} :
    (os.map (·.jsonKey)).Nodup → os.Perm os' → Permuted os os'
  | nested {before after subs subs' : List Override} {o : Override} :
    o.subParameters = some subs → Permuted subs subs' →
      Permuted (before ++ o :: after) (before ++ { o with subParameters := some subs' } :: after)

/-- Whether overrides differ in the order of lists of distinct keys alone. -/
def Reordered : List Override → List Override → Prop :=
  Relation.ReflTransGen Permuted

theorem Permuted.length_eq {os os' : List Override} (h : Permuted os os') :
    os.length = os'.length := by
  cases h with
  | here _ hperm => exact hperm.length_eq
  | nested => simp

/-- In a list of distinct keys the override of a key is the same in any order. -/
theorem find?_eq_of_perm {os os' : List Override} (hkeys : (os.map (·.jsonKey)).Nodup)
    (h : os.Perm os') (key : String) :
    os'.find? (·.jsonKey = key) = os.find? (·.jsonKey = key) := by
  induction h with
  | nil => rfl
  | cons o _ ih =>
    rw [List.map_cons, List.nodup_cons] at hkeys
    rw [List.find?_cons, List.find?_cons, ih hkeys.2]
  | swap o other os =>
    have hne : other.jsonKey ≠ o.jsonKey := by
      rw [List.map_cons, List.map_cons, List.nodup_cons] at hkeys
      exact fun heq => hkeys.1 (heq ▸ List.mem_cons_self)
    by_cases hkey : o.jsonKey = key
    · have hother : other.jsonKey ≠ key := fun heq => hne (heq.trans hkey.symm)
      simp [hkey, hother]
    · simp [List.find?_cons, hkey]
  | trans hperm _ ih ih' =>
    rw [ih' ((hperm.map _).nodup_iff.mp hkeys), ih hkeys]

theorem winner?_eq_of_perm {os os' : List Override} (hkeys : (os.map (·.jsonKey)).Nodup)
    (h : os.Perm os') (key : String) : winner? key os' = winner? key os := by
  have hreverse : os.reverse.Perm os'.reverse :=
    (List.reverse_perm os).trans (h.trans (List.reverse_perm os').symm)
  refine find?_eq_of_perm ?_ hreverse key
  rwa [List.map_reverse, (List.reverse_perm _).nodup_iff]

end Override

namespace Parameter

open Override

/-- Whether two lists of overrides change any siblings in the same way and find the same, up to the
order in which it is found. -/
structure SameEffect (os os' : List Override) : Prop where
  tree : ∀ ps, (patchList ps os').1 = (patchList ps os).1
  found : ∀ ps, (patchList ps os').2.Perm (patchList ps os).2

/-- Whether two overrides of one key change any parameter in the same way and find the same, up to
order. -/
structure Alike (o o' : Override) : Prop where
  jsonKey : o'.jsonKey = o.jsonKey
  parameter : ∀ p, (patchOne p o').1 = (patchOne p o).1
  found : ∀ p, (patchOne p o').2.Perm (patchOne p o).2

theorem Alike.refl (o : Override) : Alike o o :=
  ⟨rfl, fun _ => rfl, fun _ => .refl _⟩

/-- Siblings are changed in the same way by lists that answer each key with overrides that do the
same. -/
theorem patchEach_fst_congr {os os' : List Override}
    (h : ∀ key, Option.Rel Alike (os.find? (·.jsonKey = key)) (os'.find? (·.jsonKey = key)))
    (ps : List Parameter) : (patchEach ps os').1 = (patchEach ps os).1 := by
  induction ps generalizing os os' with
  | nil => rw [patchEach, patchEach]
  | cons p ps ih =>
    have hfirst : p.overlaid (os'.find? (·.jsonKey = p.jsonKey))
        = p.overlaid (os.find? (·.jsonKey = p.jsonKey)) := by
      have hkey := h p.jsonKey
      generalize os.find? (·.jsonKey = p.jsonKey) = o?,
        os'.find? (·.jsonKey = p.jsonKey) = o'? at hkey
      cases hkey with
      | none => rfl
      | some halike => exact halike.parameter p
    have hrest (key : String) : Option.Rel Alike
        ((os.filter (·.jsonKey ≠ p.jsonKey)).find? (·.jsonKey = key))
        ((os'.filter (·.jsonKey ≠ p.jsonKey)).find? (·.jsonKey = key)) := by
      by_cases hkey : key = p.jsonKey
      · have hnone (os : List Override) :
            (os.filter (·.jsonKey ≠ p.jsonKey)).find? (·.jsonKey = key) = none := by
          simp [List.find?_eq_none, hkey]
        rw [hnone, hnone]
        exact .none
      · rw [find?_filter_of_ne hkey, find?_filter_of_ne hkey]
        exact h key
    rw [patchEach_cons_fst, patchEach_cons_fst, hfirst, ih hrest]

/-- How many duplicates of a key are found depends on how often it is there, and not where. -/
theorem duplicates_perm_of_keys {os os' : List Override}
    (h : (os'.map (·.jsonKey)).Perm (os.map (·.jsonKey))) :
    (duplicates [] os').Perm (duplicates [] os) := by
  rw [← map_duplicateOf_duplicates [] os, ← map_duplicateOf_duplicates [] os']
  refine List.Perm.map duplicateOf (List.perm_iff_count.mpr fun key => ?_)
  rw [count_duplicates, count_duplicates, h.count_eq]

theorem surviving_eq_self {os : List Override} (hkeys : (os.map (·.jsonKey)).Nodup) :
    surviving os = os := by
  induction os with
  | nil => rfl
  | cons o os ih =>
    rw [List.map_cons, List.nodup_cons] at hkeys
    rw [surviving, if_neg (mt any_jsonKey_iff.mp hkeys.1), ih hkeys.2]

theorem sameEffect_of_perm {os os' : List Override} (hkeys : (os.map (·.jsonKey)).Nodup)
    (h : os.Perm os') : SameEffect os os' := by
  constructor
  · intro ps
    refine patchEach_fst_congr (fun key => ?_) ps
    rw [find?_winners, find?_winners, winner?_eq_of_perm hkeys h]
    cases winner? key os with
    | none => exact .none
    | some o => exact .some (.refl o)
  · intro ps
    have hfound := patchList_snd_perm_surviving ps os
    have hfound' := patchList_snd_perm_surviving ps os'
    rw [surviving_eq_self hkeys] at hfound
    rw [surviving_eq_self ((h.map _).nodup_iff.mp hkeys)] at hfound'
    have hduplicates := duplicates_perm_of_keys (h.map (·.jsonKey)).symm
    have hparts := hduplicates.append (h.symm.flatMap_right (foundFor ps))
    exact hfound'.trans (hparts.trans hfound.symm)

section Alike

variable {os os' : List Override}

theorem keys_eq_of_alike (h : List.Forall₂ Alike os os') :
    os'.map (·.jsonKey) = os.map (·.jsonKey) := by
  induction h with
  | nil => rfl
  | cons halike _ ih => rw [List.map_cons, List.map_cons, ih, halike.jsonKey]

theorem winner?_of_alike (h : List.Forall₂ Alike os os') (key : String) :
    Option.Rel Alike (winner? key os) (winner? key os') := by
  have hfilter : List.Forall₂ Alike (os.reverse.filter (·.jsonKey = key))
      (os'.reverse.filter (·.jsonKey = key)) := by
    refine List.rel_filter (fun o o' halike => ?_) (List.forall₂_reverse_iff.mpr h)
    simp [halike.jsonKey]
  have hfirst := getElem?_of_forall₂ hfilter 0
  rwa [← List.head?_eq_getElem?, ← List.head?_eq_getElem?, List.head?_filter,
    List.head?_filter] at hfirst

theorem foundFor_perm_of_alike {o o' : Override} (h : Alike o o') (ps : List Parameter) :
    (foundFor ps o').Perm (foundFor ps o) := by
  rw [foundFor, foundFor, h.jsonKey]
  cases ps.find? (·.jsonKey = o.jsonKey) with
  | none => exact .refl _
  | some target => exact h.found target

theorem surviving_perm_of_alike (h : List.Forall₂ Alike os os') (ps : List Parameter) :
    ((surviving os').flatMap (foundFor ps)).Perm ((surviving os).flatMap (foundFor ps)) := by
  induction h with
  | nil => exact .refl _
  | @cons o o' os os' halike hrest ih =>
    have hlater : os'.any (·.jsonKey = o'.jsonKey) = os.any (·.jsonKey = o.jsonKey) := by
      rw [Bool.eq_iff_iff, any_jsonKey_iff, any_jsonKey_iff, keys_eq_of_alike hrest,
        halike.jsonKey]
    rw [surviving, surviving, hlater]
    split_ifs
    · exact ih
    · rw [List.flatMap_cons, List.flatMap_cons]
      exact (foundFor_perm_of_alike halike ps).append ih

theorem sameEffect_of_alike (h : List.Forall₂ Alike os os') : SameEffect os os' := by
  constructor
  · intro ps
    refine patchEach_fst_congr (fun key => ?_) ps
    rw [find?_winners, find?_winners]
    exact winner?_of_alike h key
  · intro ps
    have hduplicates := duplicates_perm_of_keys (.of_eq (keys_eq_of_alike h))
    have hparts := hduplicates.append (surviving_perm_of_alike h ps)
    exact (patchList_snd_perm_surviving ps os').trans
      (hparts.trans (patchList_snd_perm_surviving ps os).symm)

end Alike

/-- What is below an override may be replaced by a list that has the same effect. -/
theorem alike_of_below {o : Override} {subs subs' : List Override}
    (hsubs : o.subParameters = some subs) (hlength : subs.length = subs'.length)
    (h : SameEffect subs subs') : Alike o { o with subParameters := some subs' } := by
  have hbelow (key : String) (children : Option (List Parameter)) :
      (patchSubs key children (some subs')).1 = (patchSubs key children (some subs)).1
        ∧ (patchSubs key children (some subs')).2.Perm (patchSubs key children (some subs)).2 := by
    have hempty : subs'.isEmpty = subs.isEmpty := by
      rw [Bool.eq_iff_iff, List.isEmpty_iff_length_eq_zero, List.isEmpty_iff_length_eq_zero,
        hlength]
    rcases children with _ | _ | ⟨p, ps⟩
    · simp [patchSubs, hempty]
    · simp [patchSubs, hempty]
    · rw [patchSubs, patchSubs]
      exact ⟨congrArg some (h.tree (p :: ps)), h.found (p :: ps)⟩
  have hinfo (info : ParameterInfo) :
      info.patched { o with subParameters := some subs' } = info.patched o := rfl
  refine ⟨rfl, fun p => ?_, fun p => ?_⟩
  · rw [patchOne_fst, patchOne_fst, hinfo, hsubs, (hbelow _ _).1]
  · obtain ⟨info, children, extra⟩ := p
    rw [patchOne, patchOne, hsubs]
    exact (hbelow _ _).2

/-- One list in another order makes no difference, wherever it stands. -/
theorem sameEffect_of_permuted {os os' : List Override} (h : Permuted os os') :
    SameEffect os os' := by
  induction h with
  | here hkeys hperm => exact sameEffect_of_perm hkeys hperm
  | @nested before after _ _ _ hsubs hpermuted ih =>
    have halike := alike_of_below hsubs hpermuted.length_eq ih
    have hothers (os : List Override) : List.Forall₂ Alike os os :=
      List.forall₂_same.mpr fun o _ => .refl o
    exact sameEffect_of_alike (List.rel_append (hothers before) (.cons halike (hothers after)))

theorem sameEffect_of_reordered {os os' : List Override} (h : Reordered os os') :
    SameEffect os os' := by
  induction h with
  | refl => exact ⟨fun _ => rfl, fun _ => .refl _⟩
  | tail _ hstep ih =>
    have hnext := sameEffect_of_permuted hstep
    exact ⟨fun ps => (hnext.tree ps).trans (ih.tree ps),
      fun ps => (hnext.found ps).trans (ih.found ps)⟩

/-- Where overrides can be laid over a tree, laying them over the result changes nothing and finds
the same; and the overrides in another order give the same tree, and find the same up to order. -/
theorem patch_stable {ps qs : List Parameter} {os : List Override} {found : List Diagnostic}
    (h : patch ps os = .ok (qs, found)) :
    patch qs os = .ok (qs, found)
      ∧ ∀ os', Reordered os os' →
        ∃ found', patch ps os' = .ok (qs, found') ∧ found'.Perm found := by
  have hcopy : allCopyable ps = true := by
    by_contra hnot
    rw [patch, if_neg hnot] at h
    cases h
  have hmade : patchList ps os = (qs, found) := patch_eq_ok h
  have hqs : (patchList ps os).1 = qs := congrArg Prod.fst hmade
  have hfound : (patchList ps os).2 = found := congrArg Prod.snd hmade
  constructor
  · have hagain : allCopyable qs = true := hqs ▸ allCopyable_patchList hcopy os
    rw [patch, if_pos hagain, ← hmade, ← hqs, patchList_twice]
  · intro os' hreordered
    have heffect := sameEffect_of_reordered hreordered
    refine ⟨(patchList ps os').2, ?_, hfound ▸ heffect.found ps⟩
    rw [patch, if_pos hcopy, ← hqs, ← heffect.tree ps]

/-- Two siblings of one key, and overrides with a repeated key, below which a list of distinct keys
is reversed; one of the overrides in it has another list below it that finds no parameters. -/
theorem patch_stable_nested :
    let ps := [group "a" [group "a.b" [], group "a.c" []], group "a" []]
    let b : Override := { jsonKey := "a.b", label := some "B", subParameters := some [default] }
    let c : Override := { jsonKey := "a.c", validate := some ⟨some true, { min := some .nan }⟩ }
    let x : Override := { jsonKey := "x" }
    let os (below : List Override) : List Override :=
      [{ jsonKey := "a", label := some "A" }, { jsonKey := "a", subParameters := some below }]
    Reordered (os [b, c, x]) (os [x, c, b])
      ∧ ∃ qs found, patch ps (os [b, c, x]) = .ok (qs, found)
        ∧ patch qs (os [b, c, x]) = .ok (qs, found)
        ∧ (∃ found', patch ps (os [x, c, b]) = .ok (qs, found') ∧ found'.Perm found)
        ∧ (level [0] qs).map (fun q => (q.info.label, q.required)) = [("B", false), ("a.c", true)]
        ∧ found = [duplicateOf "a", mismatchOf "a.b", unmatchedOf "x"] := by
  intro ps b c x os
  have hpermuted : Permuted [b, c, x] [x, c, b] :=
    .here (by decide) (List.reverse_perm [b, c, x]).symm
  have hreordered : Reordered (os [b, c, x]) (os [x, c, b]) :=
    .single (@Permuted.nested [{ jsonKey := "a", label := some "A" }] [] _ _ _ rfl hpermuted)
  have hpatch : patch ps (os [b, c, x]) = .ok (patchList ps (os [b, c, x])) := rfl
  obtain ⟨hagain, hordered⟩ := patch_stable hpatch
  exact ⟨hreordered, _, _, hpatch, hagain, hordered _ hreordered, by decide +kernel,
    by decide +kernel⟩

end Parameter

end ParamForm
