import Mathlib.Data.List.Nodup
import Mathlib.Data.List.Perm.Basic
import ParamForm.Proofs.Parameter.Sort
import ParamForm.Proofs.Text.Units

/-!
# Arranged trees

Siblings with distinct keys come into the same order wherever they stood before
(`Parameter.sortSiblings_eq_of_perm`), as no two of them are equal in the order of siblings. What is
inside the parameters of further keys has no part in it: without it (`Parameter.hollow`) a tree is
arranged and walked in the same way (`Parameter.hollow_arrangeBelow`, `Parameter.walk_hollow`).
-/

namespace ParamForm

namespace Text

instance : Std.TransCmp compareUnits :=
  inferInstanceAs (Std.TransCmp (Ordering.byKey (fun s : String => units s.toList)
    (List.compareLex compare)))

theorem eq_of_compareUnits {a b : String} (h : compareUnits a b = .eq) : a = b := by
  have hunits : units a.toList = units b.toList := Std.LawfulEqCmp.eq_of_compare h
  have hchars := congrArg ofUnits hunits
  rw [ofUnits_units, ofUnits_units] at hchars
  exact String.toList_injective hchars

end Text

namespace Parameter

instance : Std.TransCmp compareSiblings :=
  inferInstanceAs (Std.TransCmp (compareLex (compareOn childCount)
    (compareLex (Ordering.byKey (·.info.label) Text.compareUnits)
      (Ordering.byKey (·.jsonKey) Text.compareUnits))))

theorem jsonKey_eq_of_compareSiblings {a b : Parameter} (h : compareSiblings a b = .eq) :
    a.jsonKey = b.jsonKey := by
  rw [compareSiblings, Ordering.then_eq_eq, Ordering.then_eq_eq] at h
  exact Text.eq_of_compareUnits h.2.2

theorem pairwise_mergeSort_siblings (ps : List Parameter) :
    (ps.mergeSort fun a b => (compareSiblings a b).isLE).Pairwise
      fun a b => (compareSiblings a b).isLE = true := by
  have htrans : ∀ a b c : Parameter, (compareSiblings a b).isLE = true →
      (compareSiblings b c).isLE = true → (compareSiblings a c).isLE = true :=
    fun _ _ _ => Std.TransCmp.isLE_trans
  have htotal : ∀ a b : Parameter,
      ((compareSiblings a b).isLE || (compareSiblings b a).isLE) = true := by
    intro a b
    have hswap : compareSiblings b a = (compareSiblings a b).swap := Std.OrientedCmp.eq_swap
    rw [hswap]
    cases compareSiblings a b <;> rfl
  exact List.pairwise_mergeSort htrans htotal ps

theorem mergeSort_eq_of_perm {ps qs : List Parameter} (h : ps.Perm qs)
    (hkeys : (ps.map (·.jsonKey)).Nodup) :
    ps.mergeSort (fun a b => (compareSiblings a b).isLE)
      = qs.mergeSort (fun a b => (compareSiblings a b).isLE) := by
  have hperm : (ps.mergeSort fun a b => (compareSiblings a b).isLE).Perm
      (qs.mergeSort fun a b => (compareSiblings a b).isLE) :=
    (List.mergeSort_perm ps _).trans (h.trans (List.mergeSort_perm qs _).symm)
  refine List.Perm.eq_of_pairwise ?_ (pairwise_mergeSort_siblings ps)
    (pairwise_mergeSort_siblings qs) hperm
  intro a b ha hb hab hba
  have hkey := jsonKey_eq_of_compareSiblings (Std.OrientedCmp.isLE_antisymm hab hba)
  exact List.inj_on_of_nodup_map hkeys ((List.mergeSort_perm ps _).mem_iff.mp ha)
    (h.mem_iff.mpr ((List.mergeSort_perm qs _).mem_iff.mp hb)) hkey

theorem inOrder_eq_of_perm {ps qs : List Parameter} (h : ps.Perm qs)
    (hkeys : (ps.map (·.jsonKey)).Nodup) : inOrder ps = inOrder qs := by
  have hpart (keep : Parameter → Bool) : ((ps.filter keep).map (·.jsonKey)).Nodup :=
    (List.filter_sublist.map _).nodup hkeys
  exact congrArg₂ (· ++ ·) (mergeSort_eq_of_perm (h.filter _) (hpart _))
    (mergeSort_eq_of_perm (h.filter _) (hpart _))

theorem smallerSort_comm (least : Option Int) (x y : Number) :
    smallerSort (smallerSort least x) y = smallerSort (smallerSort least y) x := by
  cases x with
  | whole n =>
    cases y with
    | whole m =>
      cases least <;> simp only [smallerSort] <;> grind
    | _ => rfl
  | _ => rfl

theorem sortBase_eq_of_perm {ps qs : List Parameter} (defaultSort : Number) (h : ps.Perm qs) :
    sortBase defaultSort ps = sortBase defaultSort qs := by
  unfold sortBase
  rw [h.foldl_eq' (fun p _ q _ least => smallerSort_comm least p.info.sort q.info.sort)]

/-- Siblings with distinct keys are sorted into the same list from wherever they stood. -/
theorem sortSiblings_eq_of_perm (defaultSort : Number) {ps qs : List Parameter} (h : ps.Perm qs)
    (hkeys : (ps.map (·.jsonKey)).Nodup) :
    sortSiblings defaultSort ps = sortSiblings defaultSort qs := by
  rw [sortSiblings, sortSiblings, sortBase_eq_of_perm defaultSort h, inOrder_eq_of_perm h hkeys]

mutual

/-- A parameter without what is inside the parameters of further keys, at any depth. -/
def hollow : Parameter → Parameter
  | ⟨info, subs, extra⟩ => ⟨info, hollowSubs subs, extra.map fun _ => default⟩

/-- The parameters, each hollowed out. -/
def hollowEach : List Parameter → List Parameter
  | [] => []
  | p :: ps => hollow p :: hollowEach ps

/-- The sub-parameters hollowed out, if there are any. -/
def hollowSubs : Option (List Parameter) → Option (List Parameter)
  | none => none
  | some ps => some (hollowEach ps)

end

theorem hollowEach_eq_map (ps : List Parameter) : hollowEach ps = ps.map hollow := by
  induction ps with
  | nil => rfl
  | cons p ps ih => rw [hollowEach, ih, List.map_cons]

theorem hollowSubs_eq_map (subs : Option (List Parameter)) :
    hollowSubs subs = subs.map fun ps => ps.map hollow := by
  cases subs with
  | none => rfl
  | some ps => rw [hollowSubs, hollowEach_eq_map, Option.map_some]

theorem hollow_eq (p : Parameter) : p.hollow
    = ⟨p.info, p.subParameters.map fun ps => ps.map hollow,
      p.additionalParameter.map fun _ => default⟩ := by
  cases p
  rw [hollow, hollowSubs_eq_map]

@[simp]
theorem info_hollow (p : Parameter) : p.hollow.info = p.info := by
  rw [hollow_eq]

@[simp]
theorem childCount_hollow (p : Parameter) : p.hollow.childCount = p.childCount := by
  rw [hollow_eq, childCount, childCount, children, children]
  cases p.subParameters <;> simp

theorem arrangeEach_eq_map (defaultSort : Number) (ps : List Parameter) :
    arrangeEach defaultSort ps = ps.map (arrangeBelow defaultSort) := by
  induction ps with
  | nil => rfl
  | cons p ps ih => rw [arrangeEach, ih, List.map_cons]

theorem hollow_numbered (base : Number) (ps : List Parameter) :
    (numbered base ps).map hollow = numbered base (ps.map hollow) := by
  rw [numbered, numbered, List.zipIdx_map, List.map_map, List.map_map]
  refine List.map_congr_left fun pair _ => ?_
  simp [hollow_eq]

/-- Siblings are put in order in the same way if their own data and their numbers of sub-parameters
stay. -/
theorem map_inOrder {f : Parameter → Parameter} (hinfo : ∀ p, (f p).info = p.info)
    (hcount : ∀ p, (f p).childCount = p.childCount) (ps : List Parameter) :
    (inOrder ps).map f = inOrder (ps.map f) := by
  have hsorted (qs : List Parameter) :
      (qs.mergeSort fun a b => (compareSiblings a b).isLE).map f
        = (qs.map f).mergeSort fun a b => (compareSiblings a b).isLE :=
    List.map_mergeSort fun a _ b _ => by simp [compareSiblings, jsonKey, hinfo, hcount]
  simp only [inOrder, List.map_append, hsorted, List.filter_map, Function.comp_def, required, hinfo]

theorem sortBase_map {f : Parameter → Parameter} (hinfo : ∀ p, (f p).info = p.info)
    (defaultSort : Number) (ps : List Parameter) :
    sortBase defaultSort (ps.map f) = sortBase defaultSort ps := by
  simp [sortBase, List.foldl_map, hinfo]

theorem hollow_sortSiblings (defaultSort : Number) (ps : List Parameter) :
    (sortSiblings defaultSort ps).map hollow = sortSiblings defaultSort (ps.map hollow) := by
  rw [sortSiblings, sortSiblings, hollow_numbered, map_inOrder info_hollow childCount_hollow,
    sortBase_map info_hollow]

/-- A parameter with the lists below it sorted, apart from what is inside the parameters of further
keys. -/
def settled (defaultSort : Number) (p : Parameter) : Parameter :=
  (arrangeBelow defaultSort p).hollow

/-- Siblings with the lists below them sorted, and then sorted themselves. -/
def settledList (defaultSort : Number) (ps : List Parameter) : List Parameter :=
  sortSiblings defaultSort (ps.map (settled defaultSort))

theorem hollow_arrange (defaultSort : Number) (ps : List Parameter) :
    (arrange defaultSort ps).map hollow = settledList defaultSort ps := by
  rw [arrange, hollow_sortSiblings, arrangeEach_eq_map, List.map_map]
  rfl

theorem settled_eq (defaultSort : Number) (p : Parameter) : settled defaultSort p
    = ⟨p.info, p.subParameters.map (settledList defaultSort),
      p.additionalParameter.map fun _ => default⟩ := by
  obtain ⟨info, subs, extra⟩ := p
  have hsubs : (arrangeSubs defaultSort subs).map (List.map hollow)
      = subs.map (settledList defaultSort) := by
    cases subs with
    | none => rfl
    | some ps =>
      rw [arrangeSubs, Option.map_some, Option.map_some]
      exact congrArg some (hollow_arrange defaultSort ps)
  have hextra : (arrangeExtra defaultSort extra).map (fun _ => (default : Parameter))
      = extra.map fun _ => default := by
    cases extra with
    | none => rfl
    | some p =>
      obtain ⟨_, _, _⟩ := p
      rw [arrangeExtra, Option.map_some, Option.map_some]
  rw [settled, arrangeBelow, hollow_eq]
  exact congrArg₂ (Parameter.mk info) hsubs hextra

/-- Siblings with distinct keys settle into the same list from wherever they stood. -/
theorem settledList_eq_of_perm (defaultSort : Number) {ps qs : List Parameter} (h : ps.Perm qs)
    (hkeys : (ps.map (·.jsonKey)).Nodup) :
    settledList defaultSort ps = settledList defaultSort qs := by
  refine sortSiblings_eq_of_perm defaultSort (h.map _) ?_
  have hsame : (ps.map (settled defaultSort)).map (·.jsonKey) = ps.map (·.jsonKey) := by
    rw [List.map_map]
    refine List.map_congr_left fun p _ => ?_
    rw [Function.comp_apply, settled_eq]
  rwa [hsame]

section Walk

variable {α : Type} (deeper : α → α)

/-- What a walk visits, apart from what is inside the parameters of further keys. -/
def hollowVisits (visits : List (α × Parameter)) : List (α × Parameter) :=
  visits.map fun visit => (visit.1, visit.2.hollow)

mutual

theorem walkBy_hollow : ∀ (depth : α) (ps : List Parameter),
    walkBy deeper depth (hollowEach ps) = hollowVisits (walkBy deeper depth ps)
  | _, [] => by
    rw [hollowEach, walkBy]
    rfl
  | depth, p :: ps => by
    rw [hollowEach, walkBy, walkBy, walkOneBy_hollow depth p, walkBy_hollow depth ps]
    exact List.map_append.symm

theorem walkOneBy_hollow : ∀ (depth : α) (p : Parameter),
    walkOneBy deeper depth p.hollow = hollowVisits (walkOneBy deeper depth p)
  | depth, ⟨info, subs, extra⟩ => by
    rw [hollow, walkOneBy, walkOneBy, walkSubsBy_hollow (deeper depth) subs, ← hollow]
    rfl

theorem walkSubsBy_hollow : ∀ (depth : α) (subs : Option (List Parameter)),
    walkSubsBy deeper depth (hollowSubs subs) = hollowVisits (walkSubsBy deeper depth subs)
  | _, none => by
    rw [hollowSubs, walkSubsBy]
    rfl
  | depth, some ps => by
    rw [hollowSubs, walkSubsBy, walkSubsBy, walkBy_hollow depth ps]

end

end Walk

theorem walk_hollow (ps : List Parameter) :
    walk (ps.map hollow) = hollowVisits (walk ps) := by
  rw [← hollowEach_eq_map]
  exact walkBy_hollow (· + 1) 0 ps

end Parameter

end ParamForm
