import Mathlib.Algebra.BigOperators.Group.List.Basic
import Mathlib.Algebra.Ring.Nat
import Mathlib.Data.List.DropRight
import Mathlib.Data.List.Nodup
import ParamForm.Diagnostic

/-!
# Views of a reporter

After any steps a reporter holds what was reported since the last clear (`sinceClear`), and its
views agree about it (`Diagnostic.views_agree`): the groups are a stable partition by code
(`Diagnostic.Grouped`), the summary counts them (`Summary.Counts`), and the text has one line for
each diagnostic, below the heading of its group (`Diagnostic.reportLines`).
-/

namespace ParamForm

/-- What a step reports, unless it clears. -/
def ReporterStep.reported? : ReporterStep → Option Diagnostic
  | report d => some d
  | clear => none

/-- What was reported since the last clear, in order. -/
def sinceClear (steps : List ReporterStep) : List Diagnostic :=
  (steps.rtakeWhile (·.reported?.isSome)).filterMap (·.reported?)

theorem foldl_run_eq_sinceClear (steps : List ReporterStep) :
    steps.foldl ReporterStep.run [] = sinceClear steps := by
  induction steps using List.reverseRecOn with
  | nil => rfl
  | append_singleton steps step ih =>
    rw [List.foldl_concat, ih, sinceClear, sinceClear, List.rtakeWhile_concat]
    cases step with
    | report d => simp [ReporterStep.run, ReporterStep.reported?]
    | clear => rfl

namespace Diagnostic

/-- The place at which a code appears first. -/
def firstIndex (ds : List Diagnostic) (c : Code) : Nat :=
  ds.findIdx (·.code = c)

/-- Whether groups are a stable partition of diagnostics: every one is in one group, a group holds
all those of its code in their order, and the groups are in the order in which their codes appear.
-/
structure Grouped (ds : List Diagnostic) (gs : List (Code × List Diagnostic)) : Prop where
  perm : (gs.flatMap (·.2)).Perm ds
  stable : ∀ g ∈ gs, g.2 = ds.filter (·.code = g.1)
  nonempty : ∀ g ∈ gs, g.2 ≠ []
  ordered : (gs.map (·.1)).Pairwise fun c c' => firstIndex ds c < firstIndex ds c'

variable {ds : List Diagnostic} {gs : List (Code × List Diagnostic)}

theorem firstIndex_lt_iff {c : Code} :
    firstIndex ds c < ds.length ↔ ∃ d ∈ ds, d.code = c := by
  simp [firstIndex, List.findIdx_lt_length]

theorem firstIndex_concat_of_mem {c : Code} (h : ∃ e ∈ ds, e.code = c) (d : Diagnostic) :
    firstIndex (ds ++ [d]) c = firstIndex ds c := by
  have hlt := firstIndex_lt_iff.mpr h
  unfold firstIndex at hlt ⊢
  rw [List.findIdx_append, if_pos hlt]

theorem length_le_firstIndex_concat {c : Code} (h : ¬ ∃ e ∈ ds, e.code = c) (d : Diagnostic) :
    ds.length ≤ firstIndex (ds ++ [d]) c := by
  have hlt := mt firstIndex_lt_iff.mp h
  unfold firstIndex at hlt ⊢
  rw [List.findIdx_append, if_neg hlt]
  exact Nat.le_add_left _ _

theorem filter_concat_of_ne {d : Diagnostic} {c : Code} (h : c ≠ d.code) :
    (ds ++ [d]).filter (·.code = c) = ds.filter (·.code = c) := by
  simp [List.filter_append, h.symm]

theorem filter_concat_self (ds : List Diagnostic) (d : Diagnostic) :
    (ds ++ [d]).filter (·.code = d.code) = ds.filter (·.code = d.code) ++ [d] := by
  simp [List.filter_append]

/-- A diagnostic starts a group after all others, or goes to the end of the group of its code. -/
theorem addToGroups_cases (d : Diagnostic) (gs : List (Code × List Diagnostic)) :
    (d.code ∉ gs.map (·.1) ∧ addToGroups d gs = gs ++ [(d.code, [d])])
      ∨ ∃ front same back, gs = front ++ (d.code, same) :: back
        ∧ addToGroups d gs = front ++ (d.code, same ++ [d]) :: back := by
  induction gs with
  | nil => exact .inl ⟨List.not_mem_nil, rfl⟩
  | cons g gs ih =>
    obtain ⟨c, same⟩ := g
    rw [addToGroups]
    by_cases hc : c = d.code
    · subst hc
      exact .inr ⟨[], same, gs, rfl, if_pos rfl⟩
    · rw [if_neg hc]
      rcases ih with ⟨hnew, heq⟩ | ⟨front, same', back, rfl, heq⟩
      · refine .inl ⟨?_, by rw [heq, List.cons_append]⟩
        simpa [Ne.symm hc] using hnew
      · exact .inr ⟨(c, same) :: front, same', back, rfl, by rw [heq, List.cons_append]⟩

namespace Grouped

theorem mem_codes_iff (h : Grouped ds gs) {c : Code} :
    c ∈ gs.map (·.1) ↔ ∃ d ∈ ds, d.code = c := by
  constructor
  · intro hc
    obtain ⟨g, hg, rfl⟩ := List.mem_map.mp hc
    obtain ⟨d, hd⟩ := List.exists_mem_of_ne_nil _ (h.nonempty g hg)
    rw [h.stable g hg, List.mem_filter, decide_eq_true_eq] at hd
    exact ⟨d, hd⟩
  · rintro ⟨d, hd, rfl⟩
    obtain ⟨g, hg, hdg⟩ := List.mem_flatMap.mp (h.perm.mem_iff.mpr hd)
    rw [h.stable g hg, List.mem_filter, decide_eq_true_eq] at hdg
    exact List.mem_map.mpr ⟨g, hg, hdg.2.symm⟩

theorem nodup (h : Grouped ds gs) : (gs.map (·.1)).Nodup :=
  h.ordered.imp fun hlt hcode => by simp [hcode] at hlt

theorem ordered_concat (h : Grouped ds gs) (d : Diagnostic) : (gs.map (·.1)).Pairwise
    fun c c' => firstIndex (ds ++ [d]) c < firstIndex (ds ++ [d]) c' := by
  refine h.ordered.imp_of_mem fun hc hc' hlt => ?_
  rwa [firstIndex_concat_of_mem (h.mem_codes_iff.mp hc),
    firstIndex_concat_of_mem (h.mem_codes_iff.mp hc')]

/-- A diagnostic of a code that is new starts a group. -/
theorem concat_new (h : Grouped ds gs) {d : Diagnostic} (hnew : d.code ∉ gs.map (·.1)) :
    Grouped (ds ++ [d]) (gs ++ [(d.code, [d])]) where
  perm := by
    rw [List.flatMap_append]
    exact h.perm.append_right _
  stable g hg := by
    rcases List.mem_append.mp hg with hg | hg
    · have hne : g.1 ≠ d.code := fun hcode => hnew (hcode ▸ List.mem_map_of_mem hg)
      rw [filter_concat_of_ne hne, ← h.stable g hg]
    · obtain rfl := List.mem_singleton.mp hg
      have hnone : ds.filter (·.code = d.code) = [] := by
        rw [List.filter_eq_nil_iff]
        intro e he
        simpa using fun hcode => hnew (h.mem_codes_iff.mpr ⟨e, he, hcode⟩)
      rw [filter_concat_self, hnone, List.nil_append]
  nonempty g hg := by
    rcases List.mem_append.mp hg with hg | hg
    · exact h.nonempty g hg
    · obtain rfl := List.mem_singleton.mp hg
      exact List.cons_ne_nil _ _
  ordered := by
    rw [List.map_append, List.pairwise_append]
    refine ⟨h.ordered_concat d, List.pairwise_singleton _ _, fun c hc c' hc' => ?_⟩
    obtain rfl : c' = d.code := List.mem_singleton.mp hc'
    have hmem := h.mem_codes_iff.mp hc
    rw [firstIndex_concat_of_mem hmem]
    exact (firstIndex_lt_iff.mpr hmem).trans_le
      (length_le_firstIndex_concat (mt h.mem_codes_iff.mpr hnew) d)

/-- A diagnostic of a code that was there goes to the end of its group. -/
theorem concat_old {front back : List (Code × List Diagnostic)} {d : Diagnostic}
    {same : List Diagnostic} (h : Grouped ds (front ++ (d.code, same) :: back)) :
    Grouped (ds ++ [d]) (front ++ (d.code, same ++ [d]) :: back) := by
  have hothers : ∀ g ∈ front ++ back,
      g ∈ front ++ (d.code, same) :: back ∧ g.1 ≠ d.code := by
    intro g hg
    have hnodup := h.nodup
    rw [List.map_append, List.map_cons, List.nodup_middle, ← List.map_append,
      List.nodup_cons] at hnodup
    refine ⟨?_, fun hcode => hnodup.1 (List.mem_map.mpr ⟨g, hg, hcode⟩)⟩
    rcases List.mem_append.mp hg with hg | hg
    · exact List.mem_append_left _ hg
    · exact List.mem_append_right _ (List.mem_cons_of_mem _ hg)
  have hmem {g : Code × List Diagnostic} (hg : g ∈ front ++ (d.code, same ++ [d]) :: back) :
      g = (d.code, same ++ [d]) ∨ g ∈ front ++ back := by
    simpa [or_left_comm] using hg
  have hsame : same = ds.filter (·.code = d.code) := h.stable (d.code, same) (by simp)
  constructor
  · refine List.Perm.trans ?_ (h.perm.append_right [d])
    simp only [List.flatMap_append, List.flatMap_cons, List.append_assoc]
    refine (List.perm_append_comm.append_left same).append_left _
  · intro g hg
    rcases hmem hg with rfl | hg
    · rw [filter_concat_self, ← hsame]
    · rw [filter_concat_of_ne (hothers g hg).2, ← h.stable g (hothers g hg).1]
  · intro g hg
    rcases hmem hg with rfl | hg
    · simp
    · exact h.nonempty g (hothers g hg).1
  · simpa using h.ordered_concat d

end Grouped

theorem grouped_groups (ds : List Diagnostic) : Grouped ds (groups ds) := by
  induction ds using List.reverseRecOn with
  | nil => exact ⟨.refl _, by simp [groups], by simp [groups], by simp [groups]⟩
  | append_singleton ds d ih =>
    rw [groups, List.foldl_concat, ← groups]
    rcases addToGroups_cases d (groups ds) with ⟨hnew, heq⟩ | ⟨front, same, back, hgs, heq⟩
    · rw [heq]
      exact ih.concat_new hnew
    · rw [heq]
      exact (hgs ▸ ih).concat_old

end Diagnostic

/-- Whether a summary counts diagnostics and their groups. -/
structure Summary.Counts (s : Summary) (ds : List Diagnostic)
    (gs : List (Code × List Diagnostic)) : Prop where
  total : s.total = ds.length
  sum_byCode : (Code.all.map s.byCode).sum = s.total
  sum_bySeverity : s.bySeverity .warning + s.bySeverity .info = s.total
  byCode_of_group : ∀ g ∈ gs, s.byCode g.1 = g.2.length
  byCode_of_none : ∀ c, c ∉ gs.map (·.1) → s.byCode c = 0
  warning : s.bySeverity .warning = s.byCode .fallbackNode + s.byCode .structureMismatch
  info : s.bySeverity .info = s.byCode .unmatchedOverride + s.byCode .duplicateOverride

theorem Code.sum_ite_eq (sort : Code → Bool) (code : Code) :
    (all.map fun c => if sort c then (if code = c then 1 else 0) else 0).sum
      = if sort code then 1 else 0 := by
  cases code <;> simp [all]

/-- The diagnostics whose codes are of some sort are counted code by code. -/
theorem Diagnostic.countP_code (sort : Code → Bool) (ds : List Diagnostic) :
    ds.countP (fun d => sort d.code)
      = (Code.all.map fun c => if sort c then ds.countP (·.code = c) else 0).sum := by
  induction ds with
  | nil => simp [Code.all]
  | cons d ds ih =>
    have hcons (c : Code) : (if sort c then (d :: ds).countP (·.code = c) else 0)
        = (if sort c then ds.countP (·.code = c) else 0)
          + if sort c then (if d.code = c then 1 else 0) else 0 := by
      split_ifs <;> simp [*]
    rw [List.countP_cons, ih]
    simp only [hcons, List.sum_map_add, Code.sum_ite_eq]

namespace Summary

theorem sum_byCode_ofList (ds : List Diagnostic) :
    (Code.all.map (ofList ds).byCode).sum = ds.length := by
  have hsum := Diagnostic.countP_code (fun _ => true) ds
  rw [List.countP_true] at hsum
  exact hsum.symm

theorem bySeverity_ofList (ds : List Diagnostic) (severity : Severity) :
    (ofList ds).bySeverity severity
      = (Code.all.map fun c => if c.severity = severity then (ofList ds).byCode c else 0).sum := by
  have hsum := Diagnostic.countP_code (fun c => c.severity = severity) ds
  simp only [decide_eq_true_eq] at hsum
  exact hsum

theorem counts_ofList {ds : List Diagnostic} {gs : List (Code × List Diagnostic)}
    (h : Diagnostic.Grouped ds gs) : (ofList ds).Counts ds gs where
  total := rfl
  sum_byCode := sum_byCode_ofList ds
  sum_bySeverity := by
    have hsum := sum_byCode_ofList ds
    simp only [Code.all, List.map_cons, List.map_nil, List.sum_cons, List.sum_nil] at hsum
    have htotal : (ofList ds).total = ds.length := rfl
    simp only [bySeverity_ofList, Code.all, Code.severity, List.map_cons, List.map_nil,
      List.sum_cons, List.sum_nil, reduceCtorEq, if_true, if_false]
    omega
  byCode_of_group g hg := by
    rw [h.stable g hg, ← List.countP_eq_length_filter]
    rfl
  byCode_of_none c hc := by
    refine List.countP_eq_zero.mpr fun d hd => ?_
    simpa using fun hcode => hc (h.mem_codes_iff.mpr ⟨d, hd, hcode⟩)
  warning := by simp [bySeverity_ofList, Code.all, Code.severity]
  info := by simp [bySeverity_ofList, Code.all, Code.severity]

end Summary

namespace Diagnostic

/-- The lines of a report: the number of diagnostics, and for each group its code with the number of
its diagnostics, and a line for each of them. -/
def reportLines (s : Summary) (gs : List (Code × List Diagnostic)) : List String :=
  ["UI Schema Render Report", String.ofList (List.replicate 40 '─'), "Total: " ++ toString s.total]
    ++ gs.flatMap fun g =>
      "" :: (g.1.name ++ " (" ++ toString (s.byCode g.1) ++ "):") :: g.2.map line

/-- Whether no line ends inside a diagnostic. -/
def IsOneLine (d : Diagnostic) : Prop :=
  '\n' ∉ d.jsonKey.toList ∧ '\n' ∉ d.message.toList

instance (d : Diagnostic) : Decidable d.IsOneLine :=
  inferInstanceAs (Decidable (_ ∧ _))

theorem report_eq {s : Summary} {ds : List Diagnostic} (h : s.Counts ds (groups ds)) :
    report ds = "\n".intercalate (reportLines s (groups ds)) := by
  have hgroups : (groups ds).flatMap groupLines = (groups ds).flatMap fun g =>
      "" :: (g.1.name ++ " (" ++ toString (s.byCode g.1) ++ "):") :: g.2.map line := by
    refine List.flatMap_congr fun g hg => ?_
    rw [h.byCode_of_group g hg]
    rfl
  rw [report, hgroups, reportLines, h.total]

theorem newline_notMem_toDigits (n : Nat) : '\n' ∉ Nat.toDigits 10 n := by
  intro h
  have hdigit := Nat.isDigit_of_mem_toDigits (by decide) (by decide) h
  simp at hdigit

theorem newline_notMem_line {d : Diagnostic} (h : d.IsOneLine) : '\n' ∉ d.line.toList := by
  have hheading : '\n' ∉ d.severity.heading.toList := by
    cases d.severity <;> decide
  simp [line, String.toList_append, hheading, h.1, h.2]

theorem newline_notMem_reportLines {s : Summary} {gs : List (Code × List Diagnostic)}
    (h : ∀ g ∈ gs, ∀ d ∈ g.2, d.IsOneLine) : ∀ l ∈ reportLines s gs, '\n' ∉ l.toList := by
  have hname (c : Code) : '\n' ∉ c.name.toList := by
    cases c <;> decide
  have hnumber := newline_notMem_toDigits
  intro l hl
  rcases List.mem_append.mp hl with hl | hl
  · simp only [List.mem_cons, List.not_mem_nil, or_false] at hl
    rcases hl with rfl | rfl | rfl
    · decide
    · rw [String.toList_ofList, List.mem_replicate]
      decide
    · simp [String.toList_append, hnumber]
  · obtain ⟨g, hg, hl⟩ := List.mem_flatMap.mp hl
    simp only [List.mem_cons, List.mem_map] at hl
    rcases hl with rfl | rfl | ⟨d, hd, rfl⟩
    · decide
    · simp [String.toList_append, hname, hnumber]
    · exact newline_notMem_line (h g hg d hd)

/-- Where no line ends inside a diagnostic, the lines of the text are those of the report. -/
theorem splitOn_report {s : Summary} {ds : List Diagnostic} (hgroups : Grouped ds (groups ds))
    (hcounts : s.Counts ds (groups ds)) (h : ∀ d ∈ ds, d.IsOneLine) :
    (report ds).toList.splitOn '\n' = (reportLines s (groups ds)).map (·.toList) := by
  have hgroup : ∀ g ∈ groups ds, ∀ d ∈ g.2, d.IsOneLine := by
    intro g hg d hd
    rw [hgroups.stable g hg] at hd
    exact h d (List.mem_of_mem_filter hd)
  rw [report_eq hcounts, String.toList_intercalate]
  refine List.splitOn_intercalate '\n' ?_ (List.cons_ne_nil _ _)
  simpa using newline_notMem_reportLines hgroup

/-- After any steps the views of a reporter agree about what was reported since the last clear. -/
theorem views_agree (steps : List ReporterStep) :
    let ds := steps.foldl ReporterStep.run []
    ds = sinceClear steps
      ∧ Grouped ds (groups ds)
      ∧ (Summary.ofList ds).Counts ds (groups ds)
      ∧ report ds = "\n".intercalate (reportLines (Summary.ofList ds) (groups ds))
      ∧ ((∀ d ∈ ds, d.IsOneLine) → (report ds).toList.splitOn '\n'
        = (reportLines (Summary.ofList ds) (groups ds)).map (·.toList)) := by
  intro ds
  have hgroups : Grouped ds (groups ds) := grouped_groups ds
  have hcounts : (Summary.ofList ds).Counts ds (groups ds) := Summary.counts_ofList hgroups
  exact ⟨foldl_run_eq_sinceClear steps, hgroups, hcounts, report_eq hcounts,
    splitOn_report hgroups hcounts⟩

/-- Three diagnostics of two codes, after one that was cleared. -/
theorem views_agree_cleared :
    let steps : List ReporterStep := [.report ⟨.fallbackNode, "a", "gone"⟩, .clear,
      .report ⟨.unmatchedOverride, "b", "no parameter"⟩, .report ⟨.fallbackNode, "c", "no form"⟩,
      .report ⟨.unmatchedOverride, "d", "no parameter"⟩]
    let ds := steps.foldl ReporterStep.run []
    ds = sinceClear steps
      ∧ (groups ds).map (fun g => (g.1, g.2.map (·.jsonKey)))
        = [(.unmatchedOverride, ["b", "d"]), (.fallbackNode, ["c"])]
      ∧ (report ds).toList.splitOn '\n' = ["UI Schema Render Report",
        "────────────────────────────────────────", "Total: 3", "", "UNMATCHED_OVERRIDE (2):",
        "  [INFO] b: no parameter", "  [INFO] d: no parameter", "", "FALLBACK_NODE (1):",
        "  [WARNING] c: no form"].map (·.toList) := by
  intro steps ds
  obtain ⟨hsince, -, -, -, hlines⟩ := views_agree steps
  refine ⟨hsince, by decide +kernel, ?_⟩
  rw [hlines (by decide +kernel)]
  exact congrArg _ (by decide +kernel)

end Diagnostic

end ParamForm
