import Mathlib.Data.List.Basic
import ParamForm.Schema.Key

/-!
# Paths and keys

The key of a path of property names (`Key.ofPath`). A dot in a name reads like a dot between two
names, and empty names at the top leave nothing in the key, so two paths can have one key: they do
exactly if they have the same segments (`Key.ofPath_eq_iff`). Names that are not empty and hold no
dot are their own segments (`Key.segments_of_plain`).
-/

namespace ParamForm.Key

/-- The key of a path of property names. -/
def ofPath (path : List String) : String :=
  path.foldl join ""

theorem ofPath_concat (path : List String) (name : String) :
    ofPath (path ++ [name]) = join (ofPath path) name := by
  unfold ofPath
  rw [List.foldl_append, List.foldl_cons, List.foldl_nil]

theorem join_injective (parent : String) : Function.Injective (join parent) := by
  intro name other h
  unfold join at h
  split_ifs at h
  · exact h
  · exact (String.append_right_inj _).mp h

theorem splitChars_eq_splitOn (cs : List Char) : splitChars cs = cs.splitOn '.' := by
  induction cs with
  | nil => rfl
  | cons c cs ih =>
    rw [splitChars, List.splitOn_cons_eq_if_modifyHead, ih]
    by_cases hdot : c = '.'
    · simp [hdot]
    · simp only [hdot, beq_iff_eq, if_false]
      cases hsplit : cs.splitOn '.' with
      | nil => exact absurd hsplit (List.splitOnP_ne_nil _ cs)
      | cons s ss => rfl

theorem split_injective : Function.Injective split := by
  intro key other h
  unfold split at h
  have hchars : splitChars key.toList = splitChars other.toList :=
    List.map_injective_iff.mpr (fun _ _ => String.ofList_injective) h
  rw [splitChars_eq_splitOn, splitChars_eq_splitOn] at hchars
  have hjoined := congrArg (['.'].intercalate ·) hchars
  rw [List.intercalate_splitOn, List.intercalate_splitOn] at hjoined
  exact String.toList_injective hjoined

theorem split_ne_nil (key : String) : split key ≠ [] := by
  unfold split
  rw [splitChars_eq_splitOn]
  exact mt List.map_eq_nil_iff.mp (List.splitOnP_ne_nil _ key.toList)

theorem split_append_dot (parent name : String) :
    split (parent ++ "." ++ name) = split parent ++ split name := by
  have hdot : ".".toList = ['.'] := rfl
  unfold split
  simp only [splitChars_eq_splitOn, String.toList_append, hdot, List.append_assoc,
    List.singleton_append, List.splitOn_append_cons_self, List.map_append]

theorem split_of_not_mem {name : String} (h : '.' ∉ name.toList) : split name = [name] := by
  unfold split
  rw [splitChars_eq_splitOn, List.splitOn_eq_singleton h, List.map_singleton, String.ofList_toList]

/-- The segments of a path: those of its names, without the empty names at the top. -/
def segments (path : List String) : List String :=
  (path.dropWhile (·.isEmpty)).flatMap split

theorem split_foldl_join {parent : String} (h : parent.isEmpty = false) (path : List String) :
    (path.foldl join parent).isEmpty = false
      ∧ split (path.foldl join parent) = split parent ++ path.flatMap split := by
  induction path generalizing parent with
  | nil => exact ⟨h, by simp⟩
  | cons name path ih =>
    have hjoin : join parent name = parent ++ "." ++ name := by
      simp [join, h]
    have hjoined : (join parent name).isEmpty = false := by
      simp [hjoin]
    rw [List.foldl_cons, List.flatMap_cons, ← List.append_assoc, ← split_append_dot, ← hjoin]
    exact ih hjoined

/-- The segments of a path are those of its key, where that is not empty. -/
theorem segments_eq (path : List String) :
    segments path = if (ofPath path).isEmpty then [] else split (ofPath path) := by
  unfold segments ofPath
  induction path with
  | nil => rfl
  | cons name path ih =>
    rw [List.dropWhile_cons, List.foldl_cons]
    have hjoin : join "" name = name := rfl
    rw [hjoin]
    cases hname : name.isEmpty with
    | true =>
      rw [if_pos rfl, ih, String.isEmpty_iff.mp hname]
    | false =>
      obtain ⟨hkey, hsplit⟩ := split_foldl_join hname path
      rw [hkey, hsplit]
      rfl

/-- Two paths have one key exactly if they have the same segments. -/
theorem ofPath_eq_iff {path other : List String} :
    ofPath path = ofPath other ↔ segments path = segments other := by
  rw [segments_eq, segments_eq]
  constructor
  · intro h
    rw [h]
  · intro h
    split at h <;> rename_i hpath <;> split at h <;> rename_i hother
    · rw [String.isEmpty_iff.mp hpath, String.isEmpty_iff.mp hother]
    · exact absurd h.symm (split_ne_nil _)
    · exact absurd h (split_ne_nil _)
    · exact split_injective h

theorem segments_of_plain {path : List String}
    (h : ∀ name ∈ path, name ≠ "" ∧ '.' ∉ name.toList) : segments path = path := by
  have hdrop : path.dropWhile (·.isEmpty) = path := by
    cases path with
    | nil => rfl
    | cons name path =>
      have hname := (h name List.mem_cons_self).1
      rw [List.dropWhile_cons_of_neg (by simpa using hname)]
  have hsplit : ∀ name ∈ path, split name = [name] := fun name hname =>
    split_of_not_mem (h name hname).2
  rw [segments, hdrop, List.flatMap_congr hsplit, List.flatMap_singleton']

/-- The key of such names is split into them again. -/
theorem split_ofPath {path : List String} (hne : path ≠ [])
    (h : ∀ name ∈ path, name ≠ "" ∧ '.' ∉ name.toList) : split (ofPath path) = path := by
  have hsegments := segments_eq path
  rw [segments_of_plain h] at hsegments
  split_ifs at hsegments
  · exact absurd hsegments hne
  · exact hsegments.symm

end ParamForm.Key
