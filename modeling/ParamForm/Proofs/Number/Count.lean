import Mathlib.Algebra.Order.Ring.Cast
import Mathlib.Algebra.Order.Ring.Rat
import Mathlib.Order.WithBotTop
import ParamForm.Proofs.Number.Integer

/-!
# Counting

Numbers are compared by their values (`Number.Less`). Those that are counted from an integer of the
format ascend as long as they do not go past `2 ^ 53`. Past it, the integer after one of the format
is rounded to one of its neighbours, and so a longer count meets the same number twice
(`Number.ascending_iff`).
-/

namespace ParamForm.Number

/-- The value of a number, with the infinities at the ends. -/
def value? : Number → Option (WithBotTop ℚ)
  | .whole n => some (n : ℚ)
  | .negZero => some (0 : ℚ)
  | .fraction neg m k => some (signed neg m / 2 ^ k : ℚ)
  | .infinity neg => some (if neg then ⊥ else ⊤)
  | .nan => none

/-- Numeric comparison. -/
def Less (x y : Number) : Prop :=
  ∃ a ∈ x.value?, ∃ b ∈ y.value?, a < b

theorem less_irrefl (x : Number) : ¬ Less x x := by
  rintro ⟨a, ha, b, hb, hab⟩
  obtain rfl : a = b := Option.mem_unique ha hb
  exact lt_irrefl a hab

theorem less_whole_iff {m n : Int} : Less (.whole m) (.whole n) ↔ m < n := by
  simp [Less, value?]

/-- Whether the first `length` numbers that are counted from `n` are different: they end at
`2 ^ 53`, or there are two of them and the second one is rounded up. -/
def Apart (n length : Nat) : Prop :=
  length ≤ 1 ∨ n + length ≤ 2 ^ 53 + 1 ∨ (length = 2 ∧ n < 2 ^ 54 ∧ n % 4 = 2)

instance (n length : Nat) : Decidable (Apart n length) :=
  inferInstanceAs (Decidable (_ ∨ _ ∨ _))

theorem representable_of_le {n : Nat} (h : n ≤ 2 ^ 53) : (whole n).Representable := by
  rcases h.lt_or_eq with h | rfl
  · exact representable_whole h
  · exact ⟨by decide +kernel, 1, 53, by decide +kernel, by decide +kernel⟩

/-- The integer after a large one of the format is the same number, unless it is rounded up. -/
theorem ofInt_succ_eq {n : Nat} (h : 2 ^ 53 ≤ n) (hrep : (whole n).Representable)
    (hdown : ¬ (n < 2 ^ 54 ∧ n % 4 = 2)) : ofInt (n + 1 : Nat) = ofInt n := by
  rw [ofInt_succ h hrep, if_neg hdown, ofInt_of_representable hrep]

/-- Where the integer after a large one is rounded up, it is the same number as the one after it. -/
theorem ofInt_succ_succ_eq {n : Nat} (h : 2 ^ 53 ≤ n) (hrep : (whole n).Representable)
    (hup : n < 2 ^ 54 ∧ n % 4 = 2) : ofInt (n + 2 : Nat) = ofInt (n + 1 : Nat) := by
  have htop : n + 2 < twoPow 1024 := by
    have : 2 ^ 54 + 2 < twoPow 1024 := by decide +kernel
    omega
  have hnext : (whole (n + 2 : Nat)).Representable := by
    refine ⟨htop, (n + 2) / 4, 2, ?_, ?_⟩
    · rw [show twoPow 53 = 2 ^ 53 from rfl]
      omega
    · rw [Int.natAbs_natCast, show twoPow 2 = 4 from rfl]
      omega
  rw [ofInt_succ h hrep, if_pos hup, ofInt_of_representable hnext]

/-- Past `2 ^ 53`, a count of integers meets the same number twice in a row. -/
theorem exists_ofInt_eq {n length : Nat} (hrep : (whole n).Representable)
    (h : ¬ Apart n length) :
    ∃ i, i + 1 < length ∧ ofInt (n + (i + 1) : Nat) = ofInt (n + i : Nat) := by
  simp only [Apart, not_or] at h
  obtain ⟨hlength, hend, hpair⟩ := h
  by_cases hsmall : n ≤ 2 ^ 53
  · refine ⟨2 ^ 53 - n, by omega, ?_⟩
    rw [← Nat.add_assoc, Nat.add_sub_cancel' hsmall]
    exact ofInt_succ_eq le_rfl (representable_of_le le_rfl) (by decide)
  · by_cases hup : n < 2 ^ 54 ∧ n % 4 = 2
    · exact ⟨1, by omega, ofInt_succ_succ_eq (by omega) hrep hup⟩
    · exact ⟨0, by omega, ofInt_succ_eq (by omega) hrep hup⟩

theorem less_ofInt_of_apart {n length i j : Nat} (hrep : (whole n).Representable)
    (h : Apart n length) (hij : i < j) (hj : j < length) :
    Less (ofInt (n + i : Nat)) (ofInt (n + j : Nat)) := by
  by_cases hend : n + length ≤ 2 ^ 53 + 1
  · rw [ofInt_of_representable (representable_of_le (by omega)),
      ofInt_of_representable (representable_of_le (by omega)), less_whole_iff]
    omega
  · rcases h with hlength | hend' | ⟨rfl, hup⟩
    · omega
    · exact absurd hend' hend
    · obtain ⟨rfl, rfl⟩ : i = 0 ∧ j = 1 := by omega
      rw [Nat.add_zero, ofInt_of_representable hrep, ofInt_succ (by omega) hrep, if_pos hup,
        less_whole_iff]
      omega

/-- Numbers that are counted from an integer of the format ascend exactly if they are apart. -/
theorem ascending_iff {x : Number} {n length : Nat} (hsame : x.same (.whole n) = true)
    (hrep : (whole n).Representable) :
    (∀ i j, i < j → j < length → Less (x.plus i) (x.plus j)) ↔ Apart n length := by
  simp only [plus_of_same hsame]
  constructor
  · intro h
    by_contra hapart
    obtain ⟨i, hi, heq⟩ := exists_ofInt_eq hrep hapart
    have hless := h i (i + 1) (Nat.lt_succ_self i) hi
    rw [heq] at hless
    exact less_irrefl _ hless
  · exact fun h i j => less_ofInt_of_apart hrep h

end ParamForm.Number
