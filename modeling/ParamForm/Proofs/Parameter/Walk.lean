import Mathlib.Data.List.Basic
import ParamForm.Parameter.Walk

/-!
# Visits and searches

A walk over siblings is the walks over each of them one after another
(`Parameter.walkBy_eq_flatMap`), and the search for a key finds the first parameter of that key that
a walk visits (`Parameter.find?_eq_firstOf_walkBy`): it is found exactly at the end of those visits
that come to no other parameter of the key (`Parameter.find?_eq_first_visited`).
-/

namespace ParamForm.Parameter

variable {α : Type} (deeper : α → α)

theorem walkBy_eq_flatMap (depth : α) (ps : List Parameter) :
    walkBy deeper depth ps = ps.flatMap (walkOneBy deeper depth) := by
  induction ps with
  | nil => rw [walkBy, List.flatMap_nil]
  | cons p ps ih => rw [walkBy, List.flatMap_cons, ih]

theorem walkOneBy_eq_cons (depth : α) (p : Parameter) :
    walkOneBy deeper depth p
      = (depth, p) :: walkSubsBy deeper (deeper depth) p.subParameters := by
  cases p with
  | mk info subs extra => rw [walkOneBy]

theorem walkSubsBy_eq_children (depth : α) (p : Parameter) :
    walkSubsBy deeper depth p.subParameters = walkBy deeper depth p.children := by
  unfold children
  cases p.subParameters with
  | none => rw [walkSubsBy, Option.getD_none, walkBy]
  | some ps => rw [walkSubsBy, Option.getD_some]

/-- The first parameter of a key among the visited ones. -/
def firstOf (key : String) (visited : List (α × Parameter)) : Option Parameter :=
  (visited.map Prod.snd).find? (·.jsonKey = key)

theorem firstOf_append (key : String) (before after : List (α × Parameter)) :
    firstOf key (before ++ after) = (firstOf key before).or (firstOf key after) := by
  unfold firstOf
  rw [List.map_append, List.find?_append]

theorem firstOf_isSome_iff {key : String} {visited : List (α × Parameter)} :
    (firstOf key visited).isSome ↔ key ∈ visited.map fun v => v.2.jsonKey := by
  unfold firstOf
  simp [List.find?_isSome]

/-- The first parameter of a key is the one before which no other of that key is visited. -/
theorem firstOf_eq_some_iff {key : String} {visited : List (α × Parameter)} {p : Parameter} :
    firstOf key visited = some p ↔ ∃ before depth after,
      visited = before ++ (depth, p) :: after ∧ p.jsonKey = key
        ∧ ∀ visit ∈ before, visit.2.jsonKey ≠ key := by
  rw [firstOf, List.find?_map, Option.map_eq_some_iff]
  constructor
  · rintro ⟨⟨depth, q⟩, hfound, rfl⟩
    obtain ⟨hkey, before, after, hvisited, hbefore⟩ := List.find?_eq_some_iff_append.mp hfound
    exact ⟨before, depth, after, hvisited, by simpa using hkey,
      fun visit hvisit => by simpa using hbefore visit hvisit⟩
  · rintro ⟨before, depth, after, hvisited, hkey, hbefore⟩
    refine ⟨(depth, p), List.find?_eq_some_iff_append.mpr ⟨?_, before, after, hvisited, ?_⟩, rfl⟩
    · simpa using hkey
    · exact fun visit hvisit => by simpa using hbefore visit hvisit

mutual

theorem find?_eq_firstOf_walkBy (key : String) :
    ∀ (depth : α) (ps : List Parameter), find? key ps = firstOf key (walkBy deeper depth ps)
  | _, [] => by
    rw [find?, walkBy]
    rfl
  | depth, p :: ps => by
    rw [find?, walkBy, firstOf_append, findOne?_eq_firstOf_walkOneBy key depth p,
      find?_eq_firstOf_walkBy key depth ps]

theorem findOne?_eq_firstOf_walkOneBy (key : String) :
    ∀ (depth : α) (p : Parameter), findOne? key p = firstOf key (walkOneBy deeper depth p)
  | depth, ⟨info, subs, extra⟩ => by
    rw [findOne?, walkOneBy, findSubs?_eq_firstOf_walkSubsBy key (deeper depth) subs]
    by_cases hkey : info.jsonKey = key
    · simp [firstOf, jsonKey, hkey]
    · simp [firstOf, jsonKey, hkey]

theorem findSubs?_eq_firstOf_walkSubsBy (key : String) :
    ∀ (depth : α) (subs : Option (List Parameter)),
      findSubs? key subs = firstOf key (walkSubsBy deeper depth subs)
  | _, none => by
    rw [findSubs?, walkSubsBy]
    rfl
  | depth, some ps => by
    rw [findSubs?, walkSubsBy, find?_eq_firstOf_walkBy key depth ps]

end

/-- The keys of a tree, in the order in which it is walked. -/
def keys (ps : List Parameter) : List String :=
  (walk ps).map fun visit => visit.2.jsonKey

/-- A key is found exactly if a parameter of that key is visited. -/
theorem find?_isSome_iff {key : String} {ps : List Parameter} :
    (find? key ps).isSome ↔ key ∈ keys ps := by
  rw [find?_eq_firstOf_walkBy (· + 1) key 0 ps, firstOf_isSome_iff, keys, walk]

/-- A parameter is found exactly if it is the first of its key that is visited, and nothing is found
exactly if no parameter of the key is visited. -/
theorem find?_eq_first_visited (key : String) (ps : List Parameter) :
    (∀ p, find? key ps = some p ↔ ∃ before depth after,
        walk ps = before ++ (depth, p) :: after ∧ p.jsonKey = key
          ∧ ∀ visit ∈ before, visit.2.jsonKey ≠ key)
      ∧ (find? key ps = none ↔ ∀ visit ∈ walk ps, visit.2.jsonKey ≠ key) := by
  have hfind : find? key ps = firstOf key (walk ps) := find?_eq_firstOf_walkBy (· + 1) key 0 ps
  constructor
  · intro p
    rw [hfind, firstOf_eq_some_iff]
  · rw [← Option.not_isSome_iff_eq_none, hfind, firstOf_isSome_iff]
    simp

end ParamForm.Parameter
