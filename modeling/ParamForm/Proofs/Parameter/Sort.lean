import Mathlib.Data.List.Perm.Basic
import ParamForm.Parameter.Sort
import ParamForm.Proofs.Parameter.Walk

/-!
# Sorted trees

Putting the siblings of a tree in order changes no parameter's data except for its sort number. A
walk over the sorted tree visits the same depths and data as one over the tree that was sorted, in
another order (`Parameter.shown_walk_arrange`).
-/

namespace ParamForm

/-- The data of a parameter apart from its sort number. -/
def ParameterInfo.unsorted (info : ParameterInfo) : ParameterInfo :=
  { info with sort := .whole 0 }

namespace Parameter

variable {α : Type} (deeper : α → α) (defaultSort : Number)

/-- The depths and the data that are visited, apart from sort numbers. -/
def shown (visits : List (α × Parameter)) : List (α × ParameterInfo) :=
  visits.map fun visit => (visit.1, visit.2.info.unsorted)

theorem shown_append (visits after : List (α × Parameter)) :
    shown (visits ++ after) = shown visits ++ shown after :=
  List.map_append

theorem shown_walkBy (depth : α) (ps : List Parameter) :
    shown (walkBy deeper depth ps) = ps.flatMap fun p => shown (walkOneBy deeper depth p) := by
  rw [walkBy_eq_flatMap, shown, List.map_flatMap]
  rfl

theorem inOrder_perm (ps : List Parameter) : (inOrder ps).Perm ps := by
  have hsorted : ∀ qs : List Parameter,
      (qs.mergeSort fun a b => (compareSiblings a b).isLE).Perm qs :=
    fun qs => List.mergeSort_perm qs _
  have hparts : (ps.filter (·.required) ++ ps.filter (! ·.required)).Perm ps :=
    List.filter_append_perm _ ps
  exact ((hsorted _).append (hsorted _)).trans hparts

theorem shown_walkBy_numbered (base : Number) (depth : α) (ps : List Parameter) :
    shown (walkBy deeper depth (numbered base ps)) = shown (walkBy deeper depth ps) := by
  have hpairs : ps = ps.zipIdx.map Prod.fst := (List.zipIdx_map_fst 0 ps).symm
  rw [shown_walkBy, shown_walkBy, numbered]
  conv_rhs => rw [hpairs]
  rw [List.flatMap_map, List.flatMap_map]
  refine List.flatMap_congr fun pair _ => ?_
  rw [walkOneBy_eq_cons, walkOneBy_eq_cons]
  rfl

theorem shown_walkBy_sortSiblings (depth : α) (ps : List Parameter) :
    (shown (walkBy deeper depth (sortSiblings defaultSort ps))).Perm
      (shown (walkBy deeper depth ps)) := by
  rw [sortSiblings, shown_walkBy_numbered, shown_walkBy, shown_walkBy]
  exact (inOrder_perm ps).flatMap_right _

mutual

theorem shown_arrangeBelow : ∀ (depth : α) (p : Parameter),
    (shown (walkOneBy deeper depth (arrangeBelow defaultSort p))).Perm
      (shown (walkOneBy deeper depth p))
  | depth, ⟨info, subs, extra⟩ => by
    rw [arrangeBelow, walkOneBy, walkOneBy]
    exact (shown_arrangeSubs (deeper depth) subs).cons _

theorem shown_arrangeEach : ∀ (depth : α) (ps : List Parameter),
    (shown (walkBy deeper depth (arrangeEach defaultSort ps))).Perm
      (shown (walkBy deeper depth ps))
  | _, [] => by rw [arrangeEach]
  | depth, p :: ps => by
    rw [arrangeEach, walkBy, walkBy, shown_append, shown_append]
    exact (shown_arrangeBelow depth p).append (shown_arrangeEach depth ps)

theorem shown_arrangeSubs : ∀ (depth : α) (subs : Option (List Parameter)),
    (shown (walkSubsBy deeper depth (arrangeSubs defaultSort subs))).Perm
      (shown (walkSubsBy deeper depth subs))
  | _, none => by rw [arrangeSubs]
  | depth, some ps => by
    rw [arrangeSubs, walkSubsBy, walkSubsBy]
    exact (shown_walkBy_sortSiblings deeper defaultSort depth _).trans (shown_arrangeEach depth ps)

end

/-- A sorted tree is walked over the depths and the data of the tree itself, in another order. -/
theorem shown_walk_arrange (ps : List Parameter) :
    (shown (walk (arrange defaultSort ps))).Perm (shown (walk ps)) :=
  (shown_walkBy_sortSiblings (· + 1) defaultSort 0 _).trans
    (shown_arrangeEach (· + 1) defaultSort 0 ps)

end Parameter

end ParamForm
