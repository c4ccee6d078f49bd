import ParamForm.Proofs.Parameter.Winner

/-!
# What becomes of overrides

An override in a list gives way to a later one of its key, is applied to the first sibling of its
key, or finds none (`Parameter.fateOf`). What patching reports is one diagnostic for each override
of the first and of the last sort, and one for each list of overrides below an override that was
applied to a parameter without sub-parameters, in every list that is laid over siblings
(`Parameter.overrides_accounted`).
-/

namespace ParamForm.Parameter

/-- What becomes of an override in a list that is laid over siblings. -/
inductive Fate where
  | superseded
  | unmatched
  | applied (target : Parameter)

/-- An override gives way to a later one of its key, and otherwise is applied to the first sibling
of its key. -/
def fateOf (ps : List Parameter) (o : Override) (later : List Override) : Fate :=
  if later.any (·.jsonKey = o.jsonKey) then .superseded
  else match ps.find? (·.jsonKey = o.jsonKey) with
    | none => .unmatched
    | some target => .applied target

/-- The overrides of a list with their fates. -/
def fates (ps : List Parameter) : List Override → List (Override × Fate)
  | [] => []
  | o :: os => (o, fateOf ps o os) :: fates ps os

/-- Whether an override is applied. -/
def Fate.isApplied : Fate → Bool
  | applied _ => true
  | _ => false

/-- Whether an override is applied, but has overrides below it for which there are no parameters. -/
def Fate.mismatches (o : Override) : Fate → Bool
  | applied target => target.children.isEmpty && !(o.subParameters.getD []).isEmpty
  | _ => false

/-- The report of an override that a later one of its key replaces. -/
def duplicateOf (key : String) : Diagnostic :=
  ⟨.duplicateOverride, key, "key overridden more than once, last entry wins"⟩

/-- The report of an override without a parameter of its key. -/
def unmatchedOf (key : String) : Diagnostic :=
  ⟨.unmatchedOverride, key, "no derived parameter with this key, override discarded"⟩

/-- The report of overrides below a parameter that has none below it. -/
def mismatchOf (key : String) : Diagnostic :=
  ⟨.structureMismatch, key, "override declares sub-parameters but the derived parameter has none"⟩

/-- What is reported of an override, apart from what happens to those below it. -/
def Fate.reports (o : Override) (fate : Fate) : List Diagnostic :=
  match fate with
  | superseded => [duplicateOf o.jsonKey]
  | unmatched => [unmatchedOf o.jsonKey]
  | applied target => if fate.mismatches o then [mismatchOf target.jsonKey] else []

/-- What is reported of the overrides of one list that is laid over siblings. -/
def reports (ps : List Parameter) (os : List Override) : List Diagnostic :=
  (fates ps os).flatMap fun entry => entry.2.reports entry.1

mutual

/-- The lists of overrides that are laid over siblings because of an override that is applied. -/
def laidBelow (target : Parameter) : Override → List (List Parameter × List Override)
  | ⟨_, _, _, _, _, _, _, subs, _, _, _, _⟩ => laidSubs target.children subs

/-- The lists that are laid over sub-parameters, none where the target has no sub-parameters. -/
def laidSubs : List Parameter → Option (List Override) → List (List Parameter × List Override)
  | _, none => []
  | [], some _ => []
  | p :: ps, some os => (p :: ps, os) :: laidEach (p :: ps) os

/-- The lists that are laid below those overrides of a list that are applied. -/
def laidEach (ps : List Parameter) : List Override → List (List Parameter × List Override)
  | [] => []
  | o :: os =>
    (match fateOf ps o os with
      | .applied target => laidBelow target o
      | _ => []) ++ laidEach ps os

end

/-- The lists of overrides that are laid over siblings, with the siblings: a list itself, and those
below its overrides that are applied to parameters with sub-parameters. -/
def laid (ps : List Parameter) (os : List Override) : List (List Parameter × List Override) :=
  (ps, os) :: laidEach ps os

/-- Everything that is reported of a list of overrides and of those below. -/
def allReports (lists : List (List Parameter × List Override)) : List Diagnostic :=
  lists.flatMap fun list => reports list.1 list.2

/-- The overrides of a list with a later one of their key. -/
def superseded : List Override → List Override
  | [] => []
  | o :: os =>
    if os.any (·.jsonKey = o.jsonKey) then o :: superseded os else superseded os

theorem map_duplicateOf_duplicates (seen : List String) (os : List Override) :
    ((duplicates seen os).map (·.jsonKey)).map duplicateOf = duplicates seen os := by
  induction os generalizing seen with
  | nil => rfl
  | cons o os ih =>
    rw [duplicates]
    split_ifs
    · rw [List.map_cons, List.map_cons, ih]
      rfl
    · exact ih _

theorem count_duplicates (key : String) (seen : List String) (os : List Override) :
    ((duplicates seen os).map (·.jsonKey)).count key
      = if key ∈ seen then (os.map (·.jsonKey)).count key
        else (os.map (·.jsonKey)).count key - 1 := by
  induction os generalizing seen with
  | nil => simp [duplicates]
  | cons o os ih =>
    have hrest := ih (o.jsonKey :: seen)
    rw [duplicates, List.map_cons]
    by_cases hkey : o.jsonKey = key
    · subst hkey
      rw [if_pos List.mem_cons_self] at hrest
      rw [List.count_cons_self]
      by_cases hseen : o.jsonKey ∈ seen
      · rw [if_pos (List.contains_iff_mem.mpr hseen), if_pos hseen, List.map_cons,
          List.count_cons_self, hrest]
      · rw [if_neg (mt List.contains_iff_mem.mp hseen), if_neg hseen, hrest]
        rfl
    · have hsame : key ∈ o.jsonKey :: seen ↔ key ∈ seen := by
        simp [Ne.symm hkey]
      simp only [hsame] at hrest
      rw [List.count_cons_of_ne hkey, ← hrest]
      split_ifs
      · rw [List.map_cons, List.count_cons_of_ne hkey]
      · rfl

theorem count_superseded (key : String) (os : List Override) :
    ((superseded os).map (·.jsonKey)).count key = (os.map (·.jsonKey)).count key - 1 := by
  induction os with
  | nil => rfl
  | cons o os ih =>
    have hany : os.any (·.jsonKey = o.jsonKey) = true
        ↔ 0 < (os.map (·.jsonKey)).count o.jsonKey :=
      any_jsonKey_iff.trans List.count_pos_iff.symm
    by_cases hlater : os.any (·.jsonKey = o.jsonKey)
    · have hpos := hany.mp hlater
      rw [superseded, if_pos hlater, List.map_cons, List.map_cons]
      by_cases hkey : o.jsonKey = key
      · subst hkey
        rw [List.count_cons_self, List.count_cons_self, ih]
        omega
      · rw [List.count_cons_of_ne hkey, List.count_cons_of_ne hkey, ih]
    · have hnone := mt hany.mpr hlater
      rw [superseded, if_neg hlater, List.map_cons, ih]
      by_cases hkey : o.jsonKey = key
      · subst hkey
        rw [List.count_cons_self]
        omega
      · rw [List.count_cons_of_ne hkey]

/-- A duplicate is found at the later override of a key and one override gives way earlier, so that
each key has as many of the one as of the other. -/
theorem duplicates_perm (os : List Override) :
    (duplicates [] os).Perm ((superseded os).map fun o => duplicateOf o.jsonKey) := by
  have hkeys : ((duplicates [] os).map (·.jsonKey)).Perm ((superseded os).map (·.jsonKey)) := by
    rw [List.perm_iff_count]
    intro key
    rw [count_duplicates, count_superseded, if_neg List.not_mem_nil]
  rw [← map_duplicateOf_duplicates]
  have hmap : (superseded os).map (fun o => duplicateOf o.jsonKey)
      = ((superseded os).map (·.jsonKey)).map duplicateOf := by
    rw [List.map_map]
    rfl
  rw [hmap]
  exact hkeys.map duplicateOf

/-- Among overrides of distinct keys, the one of a key stands beside those of the others. -/
theorem perm_cons_filter {os : List Override} (hkeys : (os.map (·.jsonKey)).Nodup) {key : String}
    {o : Override} (h : os.find? (·.jsonKey = key) = some o) :
    os.Perm (o :: os.filter (·.jsonKey ≠ key)) := by
  induction os with
  | nil => cases h
  | cons other os ih =>
    rw [List.map_cons, List.nodup_cons] at hkeys
    by_cases hkey : other.jsonKey = key
    · obtain rfl : other = o := by simpa [hkey] using h
      subst hkey
      rw [List.filter_cons_of_neg (by simp), filter_ne_of_not_mem hkeys.1]
    · have hrest : os.find? (·.jsonKey = key) = some o := by simpa [hkey] using h
      rw [List.filter_cons_of_pos (by simpa using hkey)]
      exact ((ih hkeys.2 hrest).cons other).trans (.swap _ _ _)

/-! ## What is found -/

/-- What is found because of an override that counts. -/
def foundFor (ps : List Parameter) (o : Override) : List Diagnostic :=
  match ps.find? (·.jsonKey = o.jsonKey) with
  | none => [unmatchedOf o.jsonKey]
  | some target => (patchOne target o).2

theorem foundFor_cons_of_ne {p : Parameter} {ps : List Parameter} {o : Override}
    (h : p.jsonKey ≠ o.jsonKey) : foundFor (p :: ps) o = foundFor ps o := by
  rw [foundFor, foundFor, List.find?_cons_of_neg (by simpa using h)]

/-- Each of the overrides with distinct keys is looked at once, where its first sibling stands or at
the end. -/
theorem patchEach_snd_perm {ps : List Parameter} {os : List Override}
    (hkeys : (os.map (·.jsonKey)).Nodup) :
    (patchEach ps os).2.Perm (os.flatMap (foundFor ps)) := by
  induction ps generalizing os with
  | nil =>
    rw [patchEach, unmatched, List.map_eq_flatMap]
    exact .refl _
  | cons p ps ih =>
    have hothers : ∀ o ∈ os.filter (·.jsonKey ≠ p.jsonKey),
        foundFor (p :: ps) o = foundFor ps o := by
      intro o ho
      have hne : o.jsonKey ≠ p.jsonKey := by simpa using (List.mem_filter.mp ho).2
      exact foundFor_cons_of_ne hne.symm
    have hrestKeys : ((os.filter (·.jsonKey ≠ p.jsonKey)).map (·.jsonKey)).Nodup :=
      (List.filter_sublist.map _).nodup hkeys
    have hrest := ih hrestKeys
    rw [← List.flatMap_congr hothers] at hrest
    rw [patchEach, takeByKey]
    cases ho : os.find? (·.jsonKey = p.jsonKey) with
    | none =>
      have hall : os.filter (·.jsonKey ≠ p.jsonKey) = os := by
        simpa [List.filter_eq_self] using ho
      rw [hall] at hrest ⊢
      exact hrest
    | some o =>
      have hkey : o.jsonKey = p.jsonKey := by simpa using List.find?_some ho
      have hfirst : foundFor (p :: ps) o = (patchOne p o).2 := by
        rw [foundFor, List.find?_cons_of_pos (by simpa using hkey.symm)]
      have hsplit := (perm_cons_filter hkeys ho).flatMap_right (foundFor (p :: ps))
      rw [List.flatMap_cons, hfirst] at hsplit
      exact (hrest.append_left _).trans hsplit.symm

/-- Whether what is found when an override is laid over a parameter is what is reported of it and of
the lists below it. -/
def FindsReports (p : Parameter) (o : Override) : Prop :=
  (patchOne p o).2.Perm ((Fate.applied p).reports o ++ allReports (laidBelow p o))

/-- What is found for an override between others is reported before and below theirs. -/
theorem perm_of_parts {α : Type} {before found after here others below rest : List α}
    (hfound : found.Perm (here ++ below)) (hothers : (before ++ after).Perm (others ++ rest)) :
    (before ++ (found ++ after)).Perm ((here ++ others) ++ (below ++ rest)) :=
  calc
    List.Perm _ (found ++ (before ++ after)) := List.perm_append_comm_assoc before found after
    List.Perm _ ((here ++ below) ++ (others ++ rest)) := hfound.append hothers
    List.Perm _ ((here ++ others) ++ (below ++ rest)) := by
      rw [List.append_assoc, List.append_assoc]
      exact (List.perm_append_comm_assoc below others rest).append_left here

/-- An override that gives way is reported and nothing more; what is found for another one is
reported of it and of the lists below it. -/
theorem reports_perm {ps : List Parameter} (hps : ∀ p ∈ ps, ∀ o, FindsReports p o)
    (os : List Override) :
    ((superseded os).map (fun o => duplicateOf o.jsonKey)
        ++ (surviving os).flatMap (foundFor ps)).Perm (allReports (laid ps os)) := by
  induction os with
  | nil => exact .refl _
  | cons o os ih =>
    rw [laid, allReports, List.flatMap_cons] at ih ⊢
    rw [superseded, surviving, reports, fates, List.flatMap_cons, laidEach, fateOf]
    by_cases hlater : os.any (·.jsonKey = o.jsonKey)
    · simp only [if_pos hlater, List.map_cons, Fate.reports, List.cons_append, List.nil_append]
      exact ih.cons _
    · simp only [if_neg hlater, List.flatMap_cons, List.flatMap_append]
      refine perm_of_parts ?_ ih
      cases htarget : ps.find? (·.jsonKey = o.jsonKey) with
      | none =>
        rw [foundFor, htarget]
        exact .refl _
      | some target =>
        rw [foundFor, htarget]
        exact hps target (List.mem_of_find?_eq_some htarget) o

/-- What patching siblings finds: the duplicates of a list, and what each of the overrides that
count gives rise to. -/
theorem patchList_snd_perm_surviving (ps : List Parameter) (os : List Override) :
    (patchList ps os).2.Perm (duplicates [] os ++ (surviving os).flatMap (foundFor ps)) := by
  have hwinners : ((winners os).map (·.jsonKey)).Nodup :=
    ((winners_perm os).map _).nodup_iff.mpr (nodup_surviving os)
  have hfound : (patchEach ps (winners os)).2.Perm ((surviving os).flatMap (foundFor ps)) :=
    (patchEach_snd_perm hwinners).trans ((winners_perm os).flatMap_right _)
  exact hfound.append_left _

/-- What patching siblings finds is what is reported of all lists that are laid over siblings. -/
theorem patchList_snd_perm {ps : List Parameter} (hps : ∀ p ∈ ps, ∀ o, FindsReports p o)
    (os : List Override) : (patchList ps os).2.Perm (allReports (laid ps os)) := by
  have hduplicates := (duplicates_perm os).append_right ((surviving os).flatMap (foundFor ps))
  exact (patchList_snd_perm_surviving ps os).trans (hduplicates.trans (reports_perm hps os))

theorem laidBelow_eq (target : Parameter) (o : Override) :
    laidBelow target o = laidSubs target.children o.subParameters := by
  cases o
  rw [laidBelow]

theorem findsReports_of_children {p : Parameter}
    (hchildren : ∀ child ∈ p.children, ∀ o, FindsReports child o) (o : Override) :
    FindsReports p o := by
  obtain ⟨info, subs, extra⟩ := p
  rw [FindsReports, patchOne, laidBelow_eq, Fate.reports, Fate.mismatches]
  cases o.subParameters with
  | none => simp [patchSubs, laidSubs, allReports]
  | some os =>
    rcases subs with _ | _ | ⟨child, children⟩
    · simp [patchSubs, laidSubs, allReports, children, mismatchOf]
    · simp [patchSubs, laidSubs, allReports, children, mismatchOf]
    · exact patchList_snd_perm hchildren os

mutual

/-- What is found for an override is what is reported of it and below it. The induction follows the
parameters, as patching does, with any overrides laid over them. -/
theorem findsReports : ∀ (p : Parameter) (o : Override), FindsReports p o
  | ⟨_, subs, _⟩ => findsReports_of_children (findsReports_subs subs)

theorem findsReports_subs :
    ∀ (subs : Option (List Parameter)), ∀ p ∈ subs.getD [], ∀ o, FindsReports p o
  | none => nofun
  | some ps => findsReports_each ps

theorem findsReports_each : ∀ (ps : List Parameter), ∀ p ∈ ps, ∀ o, FindsReports p o
  | [] => nofun
  | p :: ps => List.forall_mem_cons.mpr ⟨findsReports p, findsReports_each ps⟩

end

/-- The override at the end of a path of positions in a tree of overrides. -/
def overrideAt? : List Nat → List Override → Option Override
  | [], _ => none
  | [i], os => os[i]?
  | i :: j :: path, os => os[i]?.bind fun o => overrideAt? (j :: path) (o.subParameters.getD [])

/-- Whether the override at the end of a path is applied: its data are laid over those of the first
sibling of its key, and so for each override above it. -/
inductive Applied : List Parameter → List Parameter → List Override → List Nat → Prop
  | here {ps qs : List Parameter} {os : List Override} {i : Nat} {o : Override} {p q : Parameter} :
    (fates ps os)[i]? = some (o, .applied p) → qs.find? (·.jsonKey = o.jsonKey) = some q →
      p.jsonKey = o.jsonKey → q.info = p.info.patched o → Applied ps qs os [i]
  | nested {ps qs : List Parameter} {os : List Override} {i : Nat} {o : Override} {p q : Parameter}
    {path : List Nat} :
    (fates ps os)[i]? = some (o, .applied p) → qs.find? (·.jsonKey = o.jsonKey) = some q →
      Applied p.children q.children (o.subParameters.getD []) path → Applied ps qs os (i :: path)

/-- Whether a diagnostic is about the override at the end of a path, or about one above it. -/
inductive Reported : List Parameter → List Override → List Nat → Diagnostic → Prop
  | superseded {ps : List Parameter} {os : List Override} {i : Nat} {o : Override}
    {path : List Nat} :
    (fates ps os)[i]? = some (o, .superseded) →
      Reported ps os (i :: path) (duplicateOf o.jsonKey)
  | unmatched {ps : List Parameter} {os : List Override} {i : Nat} {o : Override}
    {path : List Nat} :
    (fates ps os)[i]? = some (o, .unmatched) →
      Reported ps os (i :: path) (unmatchedOf o.jsonKey)
  | mismatch {ps : List Parameter} {os : List Override} {i j : Nat} {o : Override} {p : Parameter}
    {path : List Nat} :
    (fates ps os)[i]? = some (o, .applied p) → p.children = [] →
      Reported ps os (i :: j :: path) (mismatchOf p.jsonKey)
  | nested {ps : List Parameter} {os : List Override} {i : Nat} {o : Override} {p : Parameter}
    {path : List Nat} {d : Diagnostic} :
    (fates ps os)[i]? = some (o, .applied p) →
      Reported p.children (o.subParameters.getD []) path d → Reported ps os (i :: path) d

variable {ps : List Parameter} {os : List Override} {i : Nat} {o : Override}

theorem getElem?_fates (ps : List Parameter) (os : List Override) (i : Nat) :
    (fates ps os)[i]? = os[i]?.map fun o => (o, fateOf ps o (os.drop (i + 1))) := by
  induction os generalizing i with
  | nil => rfl
  | cons o os ih =>
    cases i with
    | zero => rfl
    | succ i => exact ih i

theorem reports_subset {fate : Fate} (h : (fates ps os)[i]? = some (o, fate)) :
    fate.reports o ⊆ allReports (laid ps os) := by
  intro d hd
  rw [laid, allReports, List.flatMap_cons]
  exact List.mem_append_left _ (List.mem_flatMap.mpr ⟨_, List.mem_of_getElem? h, hd⟩)

theorem laidBelow_subset {p : Parameter} (h : (fates ps os)[i]? = some (o, .applied p)) :
    laidBelow p o ⊆ laidEach ps os := by
  induction os generalizing i with
  | nil => simp [fates] at h
  | cons first os ih =>
    rw [laidEach]
    cases i with
    | zero =>
      obtain ⟨rfl, hfate⟩ := Prod.mk.inj (Option.some.inj h)
      rw [hfate]
      exact List.subset_append_left _ _
    | succ i => exact List.Subset.trans (ih h) (List.subset_append_right _ _)

theorem fateOf_eq_applied_iff {p : Parameter} {later : List Override} :
    fateOf ps o later = .applied p
      ↔ later.any (·.jsonKey = o.jsonKey) = false
        ∧ ps.find? (·.jsonKey = o.jsonKey) = some p := by
  unfold fateOf
  split_ifs with hlater
  · simp [hlater]
  · cases ps.find? (·.jsonKey = o.jsonKey) <;> simp [hlater]

theorem winner?_of_last (before : List Override) {later : List Override}
    (h : later.any (·.jsonKey = o.jsonKey) = false) :
    Override.winner? o.jsonKey (before ++ o :: later) = some o := by
  have hnone : later.reverse.find? (·.jsonKey = o.jsonKey) = none := by
    simpa [List.find?_eq_none] using h
  rw [Override.winner?, List.reverse_append, List.reverse_cons, List.append_assoc,
    List.find?_append, hnone]
  simp

/-- What an override that is applied finds: it is the one of its key that counts, and goes to the
first sibling of its key. -/
theorem applied_of_fates {p : Parameter} (h : (fates ps os)[i]? = some (o, .applied p)) :
    (winners os).find? (·.jsonKey = o.jsonKey) = some o
      ∧ ps.find? (·.jsonKey = o.jsonKey) = some p := by
  rw [getElem?_fates, Option.map_eq_some_iff] at h
  obtain ⟨other, hother, heq⟩ := h
  obtain ⟨rfl, hfate⟩ := Prod.mk.inj heq
  obtain ⟨hlast, hfirst⟩ := fateOf_eq_applied_iff.mp hfate
  obtain ⟨hi, rfl⟩ := List.getElem?_eq_some_iff.mp hother
  have hwinner := winner?_of_last (os.take i) hlast
  rw [← List.drop_eq_getElem_cons hi, List.take_append_drop] at hwinner
  exact ⟨(find?_winners _ os).trans hwinner, hfirst⟩

theorem find?_patchEach (key : String) (ps : List Parameter) (os : List Override) :
    (patchEach ps os).1.find? (·.jsonKey = key)
      = (ps.find? (·.jsonKey = key)).map
        fun p => p.overlaid (os.find? (·.jsonKey = key)) := by
  induction ps generalizing os with
  | nil =>
    rw [patchEach]
    rfl
  | cons p ps ih =>
    have hframe := (sameFrame_overlaid p (os.find? (·.jsonKey = p.jsonKey))).jsonKey
    rw [patchEach_cons_fst, List.find?_cons, List.find?_cons, ih, hframe]
    by_cases hkey : p.jsonKey = key
    · simp [hkey]
    · simp only [decide_eq_false hkey, find?_filter_of_ne (Ne.symm hkey)]

theorem overrideAt?_nil (path : List Nat) : overrideAt? path [] = none := by
  rcases path with _ | ⟨i, _ | ⟨j, path⟩⟩ <;> rfl

theorem laidBelow_of_children {p : Parameter} {subs : List Override}
    (hsubs : o.subParameters = some subs) (hchildren : p.children ≠ []) :
    laidBelow p o = laid p.children subs := by
  rw [laidBelow_eq, hsubs]
  cases hlist : p.children with
  | nil => exact absurd hlist hchildren
  | cons child children => rw [laidSubs, laid]

/-- The induction is on the path: of the override at its first position, or else of the rest of the
path in the list below that one. -/
theorem applied_or_reported {path : List Nat} (hentry : overrideAt? path os = some o) :
    Applied ps (patchList ps os).1 os path
      ∨ ∃ d ∈ allReports (laid ps os), Reported ps os path d := by
  induction path generalizing ps os with
  | nil => cases hentry
  | cons i path ih =>
    obtain ⟨top, htop⟩ : ∃ top, os[i]? = some top := by
      cases path with
      | nil => exact ⟨o, hentry⟩
      | cons j path =>
        obtain ⟨top, htop, -⟩ := Option.bind_eq_some_iff.mp hentry
        exact ⟨top, htop⟩
    have hfate := getElem?_fates ps os i
    rw [htop, Option.map_some] at hfate
    generalize fateOf ps top (os.drop (i + 1)) = fate at hfate
    cases fate with
    | superseded =>
      exact .inr ⟨_, reports_subset hfate (List.mem_singleton_self _), .superseded hfate⟩
    | unmatched =>
      exact .inr ⟨_, reports_subset hfate (List.mem_singleton_self _), .unmatched hfate⟩
    | applied p =>
      obtain ⟨hwinner, hfirst⟩ := applied_of_fates hfate
      have hresult : (patchList ps os).1.find? (·.jsonKey = top.jsonKey)
          = some (p.overlaid (some top)) := by
        have hfound := find?_patchEach top.jsonKey ps (winners os)
        rw [hwinner, hfirst] at hfound
        exact hfound
      cases path with
      | nil =>
        have hkey : p.jsonKey = top.jsonKey := by simpa using List.find?_some hfirst
        exact .inl (.here hfate hresult hkey (by rw [overlaid, patchOne_fst]))
      | cons j path =>
        rw [overrideAt?, htop, Option.bind_some] at hentry
        obtain ⟨subs, hsubs⟩ : ∃ subs, top.subParameters = some subs := by
          cases hsubs : top.subParameters with
          | none => simp [hsubs, overrideAt?_nil] at hentry
          | some subs => exact ⟨subs, rfl⟩
        by_cases hchildren : p.children = []
        · have hsome : subs ≠ [] := by
            rintro rfl
            simp [hsubs, overrideAt?_nil] at hentry
          have hreport : mismatchOf p.jsonKey ∈ (Fate.applied p).reports top := by
            simp [Fate.reports, Fate.mismatches, hchildren, hsubs, hsome]
          exact .inr ⟨_, reports_subset hfate hreport, .mismatch hfate hchildren⟩
        · have hbelow : Applied p.children _ _ _ ∨ ∃ d ∈ _, Reported p.children _ _ d := ih hentry
          rcases hbelow with happlied | ⟨d, hd, hreported⟩
          · refine .inl (.nested hfate hresult ?_)
            rw [children_overlaid, Option.bind_some]
            exact happlied
          · refine .inr ⟨d, ?_, .nested hfate hreported⟩
            rw [hsubs, Option.getD_some, ← laidBelow_of_children hsubs hchildren] at hd
            obtain ⟨list, hlist, hmem⟩ := List.mem_flatMap.mp hd
            have hlaid := List.mem_cons_of_mem (ps, os) (laidBelow_subset hfate hlist)
            exact List.mem_flatMap.mpr ⟨list, hlaid, hmem⟩

theorem Applied.siblings_ne_nil {qs : List Parameter} {path : List Nat}
    (h : Applied ps qs os path) : ps ≠ [] := by
  rintro rfl
  cases h with
  | here hfate => cases (applied_of_fates hfate).2
  | nested hfate => cases (applied_of_fates hfate).2

/-- Nothing is reported of an override that is applied, nor of one above it. -/
theorem not_reported_of_applied {qs : List Parameter} {path : List Nat} (h : Applied ps qs os path)
    (d : Diagnostic) : ¬ Reported ps os path d := by
  intro hreported
  induction h with
  | here hfate =>
    cases hreported with
    | superseded hother => cases hfate.symm.trans hother
    | unmatched hother => cases hfate.symm.trans hother
    | nested _ hbelow => cases hbelow
  | nested hfate _ happlied ih =>
    cases hreported with
    | superseded hother => cases hfate.symm.trans hother
    | unmatched hother => cases hfate.symm.trans hother
    | mismatch hother hchildren =>
      cases hfate.symm.trans hother
      exact happlied.siblings_ne_nil hchildren
    | nested hother hbelow =>
      cases hfate.symm.trans hother
      exact ih hbelow

/-! ## Counts -/

/-- Whether the reports of a list of overrides add up. -/
structure AddsUp (ps : List Parameter) (os : List Override) : Prop where
  overrides : os.length = (fates ps os).countP (fun entry => entry.2.isApplied)
    + (reports ps os).countP (·.code = .duplicateOverride)
    + (reports ps os).countP (·.code = .unmatchedOverride)
  mismatches : (reports ps os).countP (·.code = .structureMismatch)
    = (fates ps os).countP fun entry => entry.2.mismatches entry.1
  others : (reports ps os).countP (·.code = .fallbackNode) = 0

theorem count_reports (o : Override) (fate : Fate) :
    (if fate.isApplied then 1 else 0) + (fate.reports o).countP (·.code = .duplicateOverride)
        + (fate.reports o).countP (·.code = .unmatchedOverride) = 1
      ∧ (fate.reports o).countP (·.code = .structureMismatch)
        = (if fate.mismatches o then 1 else 0)
      ∧ (fate.reports o).countP (·.code = .fallbackNode) = 0 := by
  cases fate with
  | superseded => exact ⟨rfl, rfl, rfl⟩
  | unmatched => exact ⟨rfl, rfl, rfl⟩
  | applied p =>
    rw [Fate.reports]
    cases (Fate.applied p).mismatches o <;> exact ⟨rfl, rfl, rfl⟩

theorem addsUp (ps : List Parameter) (os : List Override) : AddsUp ps os := by
  induction os with
  | nil => exact ⟨rfl, rfl, rfl⟩
  | cons o os ih =>
    obtain ⟨hone, hmismatch, hother⟩ := count_reports o (fateOf ps o os)
    have hcons : reports ps (o :: os) = (fateOf ps o os).reports o ++ reports ps os := by
      rw [reports, fates, List.flatMap_cons, reports]
    constructor
    · rw [List.length_cons, ih.overrides, hcons, fates]
      simp only [List.countP_append, List.countP_cons]
      omega
    · rw [hcons, fates, List.countP_append, List.countP_cons, ih.mismatches, hmismatch]
      exact Nat.add_comm _ _
    · rw [hcons, List.countP_append, hother, ih.others]

/-- Every override at every depth of a list is either applied, or a diagnostic is found that is
about it or about one above it; and what is found is, in some order, what is reported of each list
that is laid over siblings, which adds up for each of them. -/
theorem overrides_accounted {qs : List Parameter} {found : List Diagnostic}
    (h : patch ps os = .ok (qs, found)) :
    (∀ path o, overrideAt? path os = some o →
        (Applied ps qs os path ∧ ∀ d, ¬ Reported ps os path d)
          ∨ ∃ d ∈ found, Reported ps os path d)
      ∧ found.Perm ((laid ps os).flatMap fun list => reports list.1 list.2)
      ∧ ∀ list ∈ laid ps os, AddsUp list.1 list.2 := by
  have hpatch := patch_eq_ok h
  have hqs : (patchList ps os).1 = qs := congrArg Prod.fst hpatch
  have hfound : (patchList ps os).2 = found := congrArg Prod.snd hpatch
  have hperm : (patchList ps os).2.Perm _ := patchList_snd_perm (fun p _ => findsReports p) os
  subst hqs hfound
  refine ⟨fun path o hentry => ?_, hperm, fun list _ => addsUp list.1 list.2⟩
  rcases applied_or_reported hentry with happlied | ⟨d, hd, hreported⟩
  · exact .inl ⟨happlied, not_reported_of_applied happlied⟩
  · exact .inr ⟨d, hperm.mem_iff.mpr hd, hreported⟩

/-- A list with an override that gives way to a later one of its key, one that finds no sibling, and
overrides below a parameter without sub-parameters. -/
theorem overrides_accounted_mixed :
    let ps := [group "a" [group "a.b" []], group "d" []]
    let below : List Override :=
      [{ jsonKey := "a.b", label := some "B", subParameters := some [{ jsonKey := "a.b.c" }] },
        { jsonKey := "d" }]
    let os : List Override :=
      [{ jsonKey := "a", subParameters := some [{ jsonKey := "a.b" }] },
        { jsonKey := "x", subParameters := some [{ jsonKey := "a.b" }] },
        { jsonKey := "a", subParameters := some below }]
    ∃ qs found, patch ps os = .ok (qs, found)
      ∧ ((Applied ps qs os [2, 0] ∧ ∀ d, ¬ Reported ps os [2, 0] d)
        ∨ ∃ d ∈ found, Reported ps os [2, 0] d)
      ∧ found.Perm ((laid ps os).flatMap fun list => reports list.1 list.2)
      ∧ (laid ps os).map (fun list => list.2.map (·.jsonKey)) = [["a", "x", "a"], ["a.b", "d"]]
      ∧ found = [duplicateOf "a", mismatchOf "a.b", unmatchedOf "d", unmatchedOf "x"] := by
  intro ps below os
  have hpatch : patch ps os = .ok (patchList ps os) := rfl
  obtain ⟨hentries, hperm, -⟩ := overrides_accounted hpatch
  exact ⟨_, _, hpatch, hentries [2, 0] _ rfl, hperm, by decide +kernel, by decide +kernel⟩

end ParamForm.Parameter
