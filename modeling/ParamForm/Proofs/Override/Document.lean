import ParamForm.Override.Document
import ParamForm.Proofs.Override.Shape
import ParamForm.Proofs.Yaml.RoundTrip

/-!
# Stored overrides

The text that is stored for accepted overrides is read back as the overrides, unless they nest
deeper than the reader goes (`Override.Fits`). The writer has no such limit, so that accepted
overrides can have a text that no reader takes.
-/

namespace ParamForm.Override

open Value Yaml

/-- Whether the text of overrides nests as deep as the reader goes at most. -/
def Fits (os : List Override) : Prop :=
  levels true (.list (toValues os)) ≤ maxDepth

instance (os : List Override) : Decidable (Fits os) :=
  inferInstanceAs (Decidable (_ ≤ _))

/-- The text of overrides is not blank: it begins with a bracket or a dash. -/
theorem isEmpty_trim_text (os : List Override) : (Text.trim (text os)).isEmpty = false := by
  cases os with
  | nil => exact Text.isEmpty_trim_cons (by decide)
  | cons o os =>
    obtain ⟨entry, hentry⟩ : ∃ entry, itemsText 0 true (toValues (o :: os)) = '-' :: entry := by
      rw [toValues, itemsText, if_pos rfl, List.nil_append, attached]
      split_ifs
      · exact ⟨_, rfl⟩
      · exact ⟨_, rfl⟩
    have htext : text (o :: os) = String.ofList ('-' :: (entry ++ ['\n'])) := by
      simp [text, dump, nodeText?, hentry]
    rw [htext]
    exact Text.isEmpty_trim_cons (by decide)

section Accepted

variable {v : Value} {os : List Override} (hv : v.WellFormed) (hcheck : check v = .ok os)

include hv hcheck

theorem reads_text : Reads (Fits os) (· = .tree (.list (toValues os))) (load (text os)) := by
  obtain ⟨hwell, hdata, -⟩ := rechecks_of_check hv hcheck
  exact load_dump hwell hdata

theorem ofText_of_fits (hfits : Fits os) : ofText (some (text os)) = .ok os := by
  obtain ⟨-, -, hagain⟩ := rechecks_of_check hv hcheck
  obtain ⟨w, hload, rfl⟩ := (reads_text hv hcheck).of_fits hfits
  unfold ofText parse loadDocument
  simp only [isEmpty_trim_text, hload, Bool.false_eq_true, if_false]
  simp [Except.mapError, ofLoaded, ofValue, hagain]

theorem ofText_of_not_fits (hfits : ¬ Fits os) :
    ∃ p : Problem, p.reason = .tooDeep
      ∧ ofText (some (text os)) = .error (.document "override" [⟨[], p.text⟩]) := by
  obtain ⟨p, hload, hreason⟩ := (reads_text hv hcheck).of_not_fits hfits
  refine ⟨p, hreason, ?_⟩
  unfold ofText parse loadDocument
  simp only [isEmpty_trim_text, hload, Bool.false_eq_true, if_false]
  rfl

end Accepted

/-- An empty list inside `n` lists. -/
def nested : Nat → Value
  | 0 => .list []
  | n + 1 => .list [nested n]

/-- An override with a rule about a nested list. -/
def deepOverride (n : Nat) : Override :=
  { jsonKey := "a", conditions := some [⟨"b", none, nested n, none⟩] }

theorem wellFormed_nested (n : Nat) : (nested n).WellFormed := by
  induction n with
  | zero => trivial
  | succ n ih => exact ⟨ih, trivial⟩

theorem jsonData?_nested (n : Nat) : jsonData? (nested n) = some (nested n) := by
  induction n with
  | zero => rfl
  | succ n ih => simp [nested, jsonData?, jsonItems?, ih]

theorem levels_nested (n : Nat) : levels true (nested n) = n + 2 := by
  induction n with
  | zero => rfl
  | succ n ih => simp [nested, levels, itemsLevels, ih]

theorem areData_nested (n : Nat) : (nested n).IsData := by
  induction n with
  | zero => trivial
  | succ n ih => exact ⟨ih, trivial⟩

theorem rechecks_deepOverride (n : Nat) : Rechecks checkOne toValue (deepOverride n) := by
  have hkey : Rechecks checkKey .text "a" := rechecks_key (by decide) (by decide)
  have hother : Rechecks checkKey .text "b" := rechecks_key (by decide) (by decide)
  have hvalue : Rechecks checkJson id (nested n) := by
    refine ⟨wellFormed_nested n, areData_nested n, ?_⟩
    rw [id, checkJson, jsonData?_nested]
  have hrule : Rechecks checkRule Rule.toValue ⟨"b", none, nested n, none⟩ :=
    Rule.rechecks hother (by simp) hvalue (by simp)
  have hrules : ∀ rules ∈ (deepOverride n).conditions,
      Rechecks (checkList checkRule) (fun rules => .list (rules.map Rule.toValue)) rules := by
    rintro rules ⟨⟩
    refine list_rechecks ?_
    simpa using hrule
  exact PartsRecheck.rechecks ⟨hkey, by simp [deepOverride], by simp [deepOverride],
    by simp [deepOverride], by simp [deepOverride], hrules, by simp [deepOverride],
    by simp [deepOverride], by simp [deepOverride], by simp [deepOverride], by simp [deepOverride],
    by simp [deepOverride]⟩

/-- The nested list stands below five collections, and takes one level more than it has lists. -/
theorem fits_deepOverride {n : Nat} (hn : 0 < n) : Fits [deepOverride n] ↔ n ≤ 94 := by
  have hkey : isLongKey (keyText "jsonKey") = false := by decide
  have hvalue : isLongKey (keyText "value") = false := by decide
  have hnested : levels false (nested n) = n + 2 := by
    rw [← levels_nested n]
    cases n with
    | zero => exact absurd hn (Nat.lt_irrefl 0)
    | succ n => rfl
  have hplain : toValues [deepOverride n] = [.record [("jsonKey", .text "a"),
      ("conditions", .list [.record [("jsonKey", .text "b"), ("value", nested n)]])]] := rfl
  have hlevels : levels true (.list (toValues [deepOverride n])) = n + 6 := by
    rw [hplain]
    simp only [levels, itemsLevels, fieldsLevels, leafLevels, hkey, hvalue, hnested,
      List.isEmpty_cons, Bool.false_eq_true, if_false, if_true]
    omega
  rw [Fits, hlevels, maxDepth]
  omega

theorem accepted_deepOverride (n : Nat) :
    (Value.list (toValues [deepOverride n])).WellFormed
      ∧ check (.list (toValues [deepOverride n])) = .ok [deepOverride n] := by
  have hrechecks : Rechecks (checkList checkOne) (fun os => .list (os.map toValue))
      [deepOverride n] := list_rechecks (by simpa using rechecks_deepOverride n)
  rw [toValues_eq, check, checkAll_eq]
  exact ⟨hrechecks.wellFormed, hrechecks.again⟩

/-- Accepted overrides are read back as they were if their text nests within the reader's depth, and
otherwise their text is no document at all. -/
theorem ofText_text {v : Value} {os : List Override} (hv : v.WellFormed)
    (hcheck : check v = .ok os) :
    (Fits os → ofText (some (text os)) = .ok os)
      ∧ (¬ Fits os → ∃ p : Problem, p.reason = .tooDeep
        ∧ ofText (some (text os)) = .error (.document "override" [⟨[], p.text⟩])) :=
  ⟨ofText_of_fits hv hcheck, ofText_of_not_fits hv hcheck⟩

/-- A rule about an empty list inside ninety-four lists is read back, and about one inside
ninety-five it is not. -/
theorem ofText_text_deep :
    ofText (some (text [deepOverride 94])) = .ok [deepOverride 94]
      ∧ ∃ p : Problem, p.reason = .tooDeep
        ∧ ofText (some (text [deepOverride 95]))
          = .error (.document "override" [⟨[], p.text⟩]) := by
  obtain ⟨hv, hcheck⟩ := accepted_deepOverride 94
  obtain ⟨hv', hcheck'⟩ := accepted_deepOverride 95
  refine ⟨(ofText_text hv hcheck).1 ?_, (ofText_text hv' hcheck').2 ?_⟩
  · rw [fits_deepOverride (by decide)]
  · rw [fits_deepOverride (by decide)]
    decide

end ParamForm.Override
