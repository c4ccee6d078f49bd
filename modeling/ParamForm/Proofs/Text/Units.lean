import ParamForm.Text.Units

/-!
# Units and characters

Putting the units of a text together gives the text again (`ofUnits_units`), since no character is
itself a surrogate; the width of a text is the sum of the widths of its parts.
-/

namespace ParamForm.Text

theorem unitChar_toNat (c : Char) : unitChar c.toNat = c := by
  have h : c.toNat.isValidChar := c.valid
  rw [unitChar, dif_pos h]
  rfl

/-- No character is a surrogate. -/
theorem isHigh_toNat (c : Char) : isHigh c.toNat = false := by
  have h : c.toNat.isValidChar := c.valid
  simp only [Nat.isValidChar] at h
  simp only [isHigh, Bool.and_eq_false_iff, decide_eq_false_iff_not]
  omega

theorem ofUnits_cons_of_not_isHigh {u : Nat} (h : isHigh u = false) (us : List Nat) :
    ofUnits (u :: us) = unitChar u :: ofUnits us := by
  cases us with
  | nil => rfl
  | cons v us => simp [ofUnits, h]

theorem ofUnits_charUnits (c : Char) (us : List Nat) :
    ofUnits (charUnits c ++ us) = c :: ofUnits us := by
  have valid : c.toNat.isValidChar := c.valid
  simp only [Nat.isValidChar] at valid
  by_cases h : c.toNat < 0x10000
  · simp only [charUnits, if_pos h, List.cons_append, List.nil_append]
    rw [ofUnits_cons_of_not_isHigh (isHigh_toNat c), unitChar_toNat]
  · have high : isHigh (0xD800 + (c.toNat - 0x10000) / 0x400) = true := by
      simp only [isHigh, Bool.and_eq_true, decide_eq_true_eq]
      omega
    have low : isLow (0xDC00 + (c.toNat - 0x10000) % 0x400) = true := by
      simp only [isLow, Bool.and_eq_true, decide_eq_true_eq]
      omega
    have pair : 0x10000 + (0xD800 + (c.toNat - 0x10000) / 0x400 - 0xD800) * 0x400
        + (0xDC00 + (c.toNat - 0x10000) % 0x400 - 0xDC00) = c.toNat := by
      omega
    simp only [charUnits, if_neg h, List.cons_append, List.nil_append, ofUnits, high, low,
      Bool.and_self, if_true, pair, unitChar_toNat]

/-- The units of a text make up the text again. -/
theorem ofUnits_units (cs : List Char) : ofUnits (units cs) = cs := by
  induction cs with
  | nil => rfl
  | cons c cs ih =>
    rw [units, List.flatMap_cons, ofUnits_charUnits]
    exact congrArg _ ih

@[simp]
theorem width_nil : width [] = 0 := rfl

@[simp]
theorem width_cons (c : Char) (cs : List Char) : width (c :: cs) = charWidth c + width cs := rfl

@[simp]
theorem width_append (as bs : List Char) : width (as ++ bs) = width as + width bs := by
  induction as with
  | nil => simp
  | cons a as ih => simp only [List.cons_append, width_cons, ih, Nat.add_assoc]

@[simp]
theorem width_spaces (n : Nat) : width (List.replicate n ' ') = n := by
  induction n with
  | zero => rfl
  | succ n ih =>
    rw [List.replicate_succ, width_cons, ih]
    exact Nat.add_comm 1 n

theorem charWidth_pos (c : Char) : 0 < charWidth c := by
  unfold charWidth
  split <;> omega

end ParamForm.Text
