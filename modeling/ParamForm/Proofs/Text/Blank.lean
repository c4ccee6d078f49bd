import Mathlib.Data.List.DropRight
import ParamForm.Text.Blank

/-!
# Trimmed texts

A trimmed text has no blanks to trim (`trim_trim`), and a text that begins with something else than
a blank does not become empty.
-/

namespace ParamForm.Text

theorem trimChars_eq (cs : List Char) :
    trimChars cs = (cs.dropWhile isBlank).rdropWhile isBlank := rfl

theorem dropWhile_trimChars (cs : List Char) :
    (trimChars cs).dropWhile isBlank = trimChars cs := by
  rw [trimChars_eq]
  rw [List.dropWhile_eq_self_iff]
  intro hpos
  have hprefix := List.rdropWhile_prefix isBlank (cs.dropWhile isBlank)
  have hfirst := List.dropWhile_get_zero_not isBlank cs (hpos.trans_le hprefix.length_le)
  rwa [List.get_eq_getElem, ← hprefix.getElem hpos] at hfirst

theorem trimChars_trimChars (cs : List Char) : trimChars (trimChars cs) = trimChars cs := by
  rw [trimChars_eq (trimChars cs), dropWhile_trimChars, trimChars_eq, List.rdropWhile_idempotent]

theorem trim_trim (s : String) : trim (trim s) = trim s := by
  unfold trim
  rw [String.toList_ofList, trimChars_trimChars]

theorem isEmpty_trim_cons {c : Char} {cs : List Char} (h : isBlank c = false) :
    (trim (String.ofList (c :: cs))).isEmpty = false := by
  have hne : trimChars (c :: cs) ≠ [] := by
    rw [trimChars_eq, List.dropWhile_cons_of_neg (by simp [h]), Ne, List.rdropWhile_eq_nil_iff]
    intro hall
    simp [h] at hall
  unfold trim
  rw [String.toList_ofList]
  simpa [String.isEmpty_iff] using hne

/-- A text of which nothing is left has nothing but blanks. -/
theorem isBlank_of_isEmpty_trim {s : String} (h : (trim s).isEmpty = true) :
    ∀ c ∈ s.toList, isBlank c = true := by
  have hnil : trimChars s.toList = [] := by
    unfold trim at h
    simpa [String.isEmpty_iff] using h
  rw [trimChars_eq, List.rdropWhile_eq_nil_iff] at hnil
  have hdrop : s.toList.dropWhile isBlank = [] := by
    by_contra hne
    have hpos := List.length_pos_iff.mpr hne
    have hfirst := List.dropWhile_get_zero_not isBlank s.toList hpos
    exact hfirst (hnil _ (List.get_mem _ _))
  exact List.dropWhile_eq_nil_iff.mp hdrop

end ParamForm.Text
