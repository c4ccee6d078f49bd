import Mathlib.Algebra.Order.Field.Power
import Mathlib.Data.Rat.Cast.Order
import Mathlib.Tactic.FieldSimp
import Mathlib.Tactic.Linarith
import Mathlib.Tactic.NormNum
import Mathlib.Tactic.Ring
import ParamForm.Number.Shortest

/-!
# Rounding

A positive number of the format is `m * 2 ^ q` with a stored significand (`Dyadic.Stored`). What
lies in the interval around it (`Dyadic.Rounds`), reaching half a unit up and half a unit down, or
a quarter at the bottom of a binade, is rounded to it, both as a ratio (`ofRatio_of_rounds`) and as
a decimal numeral (`ofDecimal_of_rounds`).
-/

namespace ParamForm.Number

theorem divRound_eq {num den m : Nat} (hden : 0 < den) (hlow : 2 * (m * den) ≤ 2 * num + den)
    (hhigh : 2 * num ≤ 2 * (m * den) + den)
    (htie : 2 * (m * den) = 2 * num + den ∨ 2 * num = 2 * (m * den) + den → m % 2 = 0) :
    divRound num den = m := by
  have hdiv : den * (num / den) + num % den = num := Nat.div_add_mod num den
  have hmod : num % den < den := Nat.mod_lt num hden
  set q := num / den with hq
  set r := num % den with hr
  have hcases : m = q ∨ m = q + 1 := by
    have hle : m < q + 2 := by
      by_contra hcon
      have : (q + 2) * den ≤ m * den := Nat.mul_le_mul_right den (Nat.le_of_not_lt hcon)
      rw [Nat.add_mul, Nat.mul_comm q den] at this
      omega
    have hge : q < m + 1 := by
      by_contra hcon
      have : (m + 1) * den ≤ q * den := Nat.mul_le_mul_right den (Nat.le_of_not_lt hcon)
      rw [Nat.add_mul, Nat.mul_comm q den] at this
      omega
    omega
  simp only [divRound, ← hq, ← hr]
  rcases hcases with rfl | rfl
  · rw [Nat.mul_comm q den] at hhigh htie
    rw [if_neg]
    rintro (h | ⟨h, hodd⟩)
    · omega
    · have := htie (.inr (by omega))
      omega
  · rw [Nat.add_mul, Nat.mul_comm q den] at hlow htie
    rw [if_pos]
    by_cases h : den < 2 * r
    · exact .inl h
    · have := htie (.inl (by omega))
      exact .inr ⟨by omega, by omega⟩

theorem divRound_of_near {num den m : Nat} (hden : 0 < den) (hlow : (m : ℚ) - 1 / 2 ≤ num / den)
    (hhigh : (num : ℚ) / den ≤ m + 1 / 2)
    (htie : m % 2 = 1 → (m : ℚ) - 1 / 2 < num / den ∧ (num : ℚ) / den < m + 1 / 2) :
    divRound num den = m := by
  have hpos : (0 : ℚ) < den := by exact_mod_cast hden
  rw [le_div_iff₀ hpos] at hlow
  rw [div_le_iff₀ hpos] at hhigh
  rw [lt_div_iff₀ hpos, div_lt_iff₀ hpos] at htie
  have hlow' : 2 * ((m : ℚ) * den) ≤ 2 * num + den := by linarith
  have hhigh' : 2 * (num : ℚ) ≤ 2 * (m * den) + den := by linarith
  refine divRound_eq hden (by exact_mod_cast hlow') (by exact_mod_cast hhigh') fun h => ?_
  by_contra hodd
  obtain ⟨hlt, hgt⟩ := htie (by omega)
  rcases h with h | h
  · have : 2 * ((m : ℚ) * den) = 2 * num + den := by exact_mod_cast h
    linarith
  · have : 2 * (num : ℚ) = 2 * (m * den) + den := by exact_mod_cast h
    linarith

theorem zpow_two_pos (e : ℤ) : (0 : ℚ) < 2 ^ e := zpow_pos (by norm_num) e

theorem cast_twoPow (e : Nat) : ((twoPow e : Nat) : ℚ) = 2 ^ e := by
  simp [twoPow]

theorem cast_tenPow (e : Nat) : ((tenPow e : Nat) : ℚ) = 10 ^ e := by
  simp [tenPow]

theorem tenPow_pos (e : Nat) : 0 < tenPow e := Nat.pow_pos (by decide)

theorem powLe_iff {num den : Nat} (hden : 0 < den) (e : ℤ) :
    powLe num den e = true ↔ (2 : ℚ) ^ e ≤ num / den := by
  have hpos : (0 : ℚ) < den := by exact_mod_cast hden
  cases e with
  | ofNat e =>
    rw [powLe, decide_eq_true_eq, Int.ofNat_eq_natCast, zpow_natCast, le_div_iff₀ hpos,
      ← cast_twoPow, mul_comm]
    norm_cast
  | negSucc k =>
    have hpow : (0 : ℚ) < 2 ^ (k + 1) := by positivity
    rw [powLe, decide_eq_true_eq, zpow_negSucc, le_div_iff₀ hpos, inv_mul_le_iff₀ hpow,
      ← cast_twoPow, mul_comm]
    norm_cast

theorem binaryExponent_spec {num den : Nat} (hnum : 0 < num) (hden : 0 < den) :
    (2 : ℚ) ^ binaryExponent num den ≤ num / den
      ∧ (num : ℚ) / den < 2 ^ (binaryExponent num den + 1) := by
  have hpos : (0 : ℚ) < den := by exact_mod_cast hden
  have hnumLow : (2 : ℚ) ^ num.log2 ≤ num := by exact_mod_cast Nat.log2_self_le hnum.ne'
  have hnumHigh : (num : ℚ) < 2 ^ (num.log2 + 1) := by exact_mod_cast Nat.lt_log2_self
  have hdenLow : (2 : ℚ) ^ den.log2 ≤ den := by exact_mod_cast Nat.log2_self_le hden.ne'
  have hdenHigh : (den : ℚ) < 2 ^ (den.log2 + 1) := by exact_mod_cast Nat.lt_log2_self
  set e : ℤ := (num.log2 : ℤ) - den.log2 with he
  have hupper : (num : ℚ) / den < 2 ^ (e + 1) := by
    rw [div_lt_iff₀ hpos]
    calc (num : ℚ) < 2 ^ (num.log2 + 1) := hnumHigh
      _ = 2 ^ (e + 1) * 2 ^ den.log2 := by
        rw [← zpow_natCast, ← zpow_natCast, ← zpow_add₀ (by norm_num)]
        congr 1
        push_cast
        omega
      _ ≤ 2 ^ (e + 1) * den := by
        exact mul_le_mul_of_nonneg_left hdenLow (zpow_two_pos _).le
  have hlower : (2 : ℚ) ^ (e - 1) < num / den := by
    rw [lt_div_iff₀ hpos]
    calc (2 : ℚ) ^ (e - 1) * den < 2 ^ (e - 1) * 2 ^ (den.log2 + 1) := by
          exact mul_lt_mul_of_pos_left hdenHigh (zpow_two_pos _)
      _ = 2 ^ num.log2 := by
        rw [← zpow_natCast, ← zpow_natCast, ← zpow_add₀ (by norm_num)]
        congr 1
        push_cast
        omega
      _ ≤ num := hnumLow
  rw [binaryExponent, ← he]
  split_ifs with h
  · exact ⟨(powLe_iff hden e).mp h, hupper⟩
  · rw [powLe_iff hden e, not_le] at h
    exact ⟨hlower.le, by rwa [sub_add_cancel]⟩

theorem binaryExponent_eq {num den : Nat} {e : ℤ} (hden : 0 < den)
    (hlow : (2 : ℚ) ^ e ≤ num / den) (hhigh : (num : ℚ) / den < 2 ^ (e + 1)) :
    binaryExponent num den = e := by
  have hnum : 0 < num := by
    by_contra h
    obtain rfl : num = 0 := by omega
    have := zpow_two_pos e
    simp only [Nat.cast_zero, zero_div] at hlow
    linarith
  obtain ⟨h1, h2⟩ := binaryExponent_spec hnum hden
  have hlt := (zpow_lt_zpow_iff_right₀ (by norm_num : (1 : ℚ) < 2)).mp (h1.trans_lt hhigh)
  have hgt := (zpow_lt_zpow_iff_right₀ (by norm_num : (1 : ℚ) < 2)).mp (hlow.trans_lt h2)
  omega

/-- What is near to an integer, counted in the units of the rounding, becomes that integer. -/
theorem ofRatio_eq {num den m : Nat} {q : ℤ} (hnum : 0 < num) (hden : 0 < den)
    (hq : max (binaryExponent num den - 52) (-1074) = q)
    (hlow : ((m : ℚ) - 1 / 2) * 2 ^ q ≤ num / den) (hhigh : (num : ℚ) / den ≤ (m + 1 / 2) * 2 ^ q)
    (htie : m % 2 = 1 →
      ((m : ℚ) - 1 / 2) * 2 ^ q < num / den ∧ (num : ℚ) / den < (m + 1 / 2) * 2 ^ q)
    (neg : Bool) : ofRatio neg num den = scaled neg m q := by
  have hunit := zpow_two_pos q
  rw [← le_div_iff₀ hunit] at hlow
  rw [← div_le_iff₀ hunit] at hhigh
  rw [← lt_div_iff₀ hunit, ← div_lt_iff₀ hunit] at htie
  rw [ofRatio, if_neg (by omega), hq]
  cases q with
  | ofNat e =>
    have hscale : (num : ℚ) / den / 2 ^ (Int.ofNat e) = (num : ℚ) / (den * twoPow e : Nat) := by
      rw [Int.ofNat_eq_natCast, zpow_natCast, Nat.cast_mul, cast_twoPow, div_div]
    rw [hscale] at hlow hhigh htie
    have hpos : 0 < den * twoPow e := Nat.mul_pos hden (Nat.two_pow_pos e)
    simp only [divRound_of_near hpos hlow hhigh htie]
  | negSucc k =>
    have hscale : (num : ℚ) / den / 2 ^ (Int.negSucc k) = (num * twoPow (k + 1) : Nat) / den := by
      rw [zpow_negSucc, Nat.cast_mul, cast_twoPow, div_inv_eq_mul, div_mul_eq_mul_div]
    rw [hscale] at hlow hhigh htie
    simp only [divRound_of_near hden hlow hhigh htie]

theorem twoPow_eq (e : Nat) : twoPow e = 2 ^ e := rfl

theorem lt_twoPow {m e f : Nat} (hm : m < 2 ^ e) (he : e ≤ f) : m < twoPow f :=
  hm.trans_le (Nat.pow_le_pow_right (by decide) he)

theorem scaled_double (neg : Bool) {m : Nat} (hm : 0 < m) (hlt : m < 2 ^ 53) (q : ℤ) :
    scaled neg (2 * m) (q - 1) = scaled neg m q := by
  have hm' : ¬ 2 * m = 0 := by omega
  have hm0 : ¬ m = 0 := by omega
  have hreduced (k : Nat) : reduced neg (2 * m) (k + 1) = reduced neg m k := by
    rw [reduced, if_pos (by omega), Nat.mul_div_cancel_left m (by decide)]
  simp only [scaled, hm', hm0, if_false]
  cases q with
  | ofNat e =>
    cases e with
    | zero =>
      have hq : Int.ofNat 0 - 1 = Int.negSucc 0 := rfl
      have hone : m * twoPow 0 = m := Nat.mul_one m
      simp only [hq, hreduced, hone, if_pos (lt_twoPow hlt (by decide : 53 ≤ 1024))]
      rfl
    | succ e =>
      have hq : Int.ofNat (e + 1) - 1 = Int.ofNat e := by simp
      have htwo : 2 * m * twoPow e = m * twoPow (e + 1) := by
        simp only [twoPow, Nat.pow_eq, Nat.pow_succ]
        ring
      simp only [hq, htwo]
  | negSucc k =>
    have hq : Int.negSucc k - 1 = Int.negSucc (k + 1) := rfl
    simp only [hq, hreduced]

/-! ## Stored significands -/

/-- The significand has 53 bits, or fewer in the smallest units, and the exponent is within the
range of the format. -/
structure Dyadic.Stored (d : Dyadic) : Prop where
  pos : 0 < d.m
  bound : d.m < 2 ^ 53
  low : -1074 ≤ d.q
  high : d.q ≤ 971
  bits : 2 ^ 52 ≤ d.m ∨ d.q = -1074

/-- How far down a dyadic number reaches, in its units. -/
def Dyadic.reach (d : Dyadic) : ℚ :=
  if d.m = twoPow 52 ∧ -1074 < d.q then 1 / 4 else 1 / 2

/-- The numbers that round to a dyadic number; the ends of the interval do if the significand is
even. -/
structure Dyadic.Rounds (d : Dyadic) (x : ℚ) : Prop where
  low : ((d.m : ℚ) - d.reach) * 2 ^ d.q ≤ x
  high : x ≤ ((d.m : ℚ) + 1 / 2) * 2 ^ d.q
  tie : d.m % 2 = 1 → ((d.m : ℚ) - d.reach) * 2 ^ d.q < x ∧ x < ((d.m : ℚ) + 1 / 2) * 2 ^ d.q

theorem Dyadic.reach_le (d : Dyadic) : 1 / 4 ≤ d.reach ∧ d.reach ≤ 1 / 2 := by
  rw [reach]
  split_ifs <;> norm_num

section Rounds

variable {d : Dyadic} (hd : d.Stored)
include hd

theorem Dyadic.Stored.one_le : (1 : ℚ) ≤ d.m := by exact_mod_cast hd.pos

theorem Dyadic.Stored.le : (d.m : ℚ) ≤ 2 ^ 53 - 1 := by
  have : d.m + 1 ≤ 2 ^ 53 := hd.bound
  have : (d.m : ℚ) + 1 ≤ 2 ^ 53 := by exact_mod_cast this
  linarith

/-- Everything in the interval is positive and below the next binade. -/
theorem Dyadic.Rounds.bounds {x : ℚ} (h : d.Rounds x) :
    (1 / 2 : ℚ) * 2 ^ d.q ≤ x ∧ x < 2 ^ 53 * 2 ^ d.q := by
  have hunit := zpow_two_pos d.q
  have hone := hd.one_le
  have hle := hd.le
  have hreach := d.reach_le.2
  constructor
  · refine le_trans ?_ h.low
    exact mul_le_mul_of_nonneg_right (by linarith) hunit.le
  · refine h.high.trans_lt ?_
    exact mul_lt_mul_of_pos_right (by linarith) hunit

/-- A ratio in the interval that is not below the binade of the number has the number's units. -/
theorem ofRatio_of_rounds_unit {num den : Nat} (hnum : 0 < num) (hden : 0 < den)
    (h : d.Rounds (num / den)) (hbase : (2 : ℚ) ^ 52 * 2 ^ d.q ≤ num / den ∨ d.q = -1074)
    (neg : Bool) : ofRatio neg num den = scaled neg d.m d.q := by
  have hunit := zpow_two_pos d.q
  have hreach := d.reach_le
  have hlt := (h.bounds hd).2
  have hbinade : (2 : ℚ) ^ 53 * 2 ^ d.q = 2 ^ (52 + d.q + 1) := by
    rw [add_assoc, add_comm d.q 1, ← add_assoc, zpow_add₀ (by norm_num)]
    norm_num
  have hq : max (binaryExponent num den - 52) (-1074) = d.q := by
    rcases hbase with hbase | hbase
    · have : binaryExponent num den = 52 + d.q := by
        refine binaryExponent_eq hden ?_ (by rwa [← hbinade])
        rw [zpow_add₀ (by norm_num)]
        exact hbase
      have := hd.low
      omega
    · have hlt' := (binaryExponent_spec hnum hden).1.trans_lt hlt
      rw [hbinade] at hlt'
      have := (zpow_lt_zpow_iff_right₀ (by norm_num : (1 : ℚ) < 2)).mp hlt'
      omega
  have hlow : ((d.m : ℚ) - 1 / 2) * 2 ^ d.q ≤ ((d.m : ℚ) - d.reach) * 2 ^ d.q :=
    mul_le_mul_of_nonneg_right (by linarith) hunit.le
  exact ofRatio_eq hnum hden hq (hlow.trans h.low) h.high
    (fun hodd => ⟨hlow.trans_lt (h.tie hodd).1, (h.tie hodd).2⟩) neg

/-- Only the least significand of a binade reaches below the binade. -/
theorem Dyadic.Rounds.below_binade {x : ℚ} (h : d.Rounds x)
    (hbelow : x < (2 : ℚ) ^ 52 * 2 ^ d.q) (hq : d.q ≠ -1074) :
    d.m = 2 ^ 52 ∧ d.reach = 1 / 4 := by
  have hunit := zpow_two_pos d.q
  have hreach := d.reach_le
  have hm : d.m = 2 ^ 52 := by
    have hbits := hd.bits.resolve_right hq
    by_contra hne
    have hsucc : 2 ^ 52 + 1 ≤ d.m := by omega
    have hsucc : (2 : ℚ) ^ 52 + 1 ≤ d.m := by exact_mod_cast hsucc
    have : (2 : ℚ) ^ 52 * 2 ^ d.q ≤ ((d.m : ℚ) - d.reach) * 2 ^ d.q :=
      mul_le_mul_of_nonneg_right (by linarith) hunit.le
    linarith [h.low]
  refine ⟨hm, ?_⟩
  have := hd.low
  rw [Dyadic.reach, if_pos ⟨hm, by omega⟩]

/-- As `ofRatio_of_rounds_unit`, just below the binade of the number, where units are half as large.
-/
theorem ofRatio_of_rounds_below {num den : Nat} (hnum : 0 < num) (hden : 0 < den)
    (h : d.Rounds (num / den)) (hbelow : (num : ℚ) / den < (2 : ℚ) ^ 52 * 2 ^ d.q)
    (hq : d.q ≠ -1074) (neg : Bool) : ofRatio neg num den = scaled neg d.m d.q := by
  obtain ⟨hm, hreach⟩ := h.below_binade hd hbelow hq
  have hhalf : (2 : ℚ) ^ d.q = 2 * 2 ^ (d.q - 1) := by
    rw [← zpow_one_add₀ (by norm_num)]
    congr 1
    omega
  have hlow := h.low
  rw [hm, hreach, hhalf] at hlow
  rw [hhalf] at hbelow
  push_cast at hlow
  have hunit := zpow_two_pos (d.q - 1)
  have hexponent : binaryExponent num den = 51 + d.q := by
    refine binaryExponent_eq hden ?_ ?_
    · rw [show 51 + d.q = 52 + (d.q - 1) by omega, zpow_add₀ (by norm_num)]
      refine le_trans ?_ hlow
      norm_num
      nlinarith
    · rw [show 51 + d.q + 1 = 53 + (d.q - 1) by omega, zpow_add₀ (by norm_num)]
      refine hbelow.trans_le ?_
      norm_num
      linarith
  have hlowq := hd.low
  have hround := ofRatio_eq (m := 2 ^ 53) (q := d.q - 1) hnum hden (by omega)
    (by push_cast; linarith) (by push_cast; linarith) (fun h => absurd h (by decide)) neg
  rw [hround, hm, show 2 ^ 53 = 2 * 2 ^ 52 by decide,
    scaled_double neg (by decide) (by decide)]

/-- A ratio that rounds to a dyadic number becomes that number. -/
theorem ofRatio_of_rounds {num den : Nat} (hden : 0 < den) (h : d.Rounds (num / den)) (neg : Bool) :
    ofRatio neg num den = scaled neg d.m d.q := by
  obtain ⟨hpos, -⟩ := h.bounds hd
  have hnum : 0 < num := by
    by_contra hcon
    obtain rfl : num = 0 := by omega
    have hunit := zpow_two_pos d.q
    simp only [Nat.cast_zero, zero_div] at hpos
    linarith
  by_cases hbase : (2 : ℚ) ^ 52 * 2 ^ d.q ≤ num / den ∨ d.q = -1074
  · exact ofRatio_of_rounds_unit hd hnum hden h hbase neg
  · rw [not_or, not_le] at hbase
    exact ofRatio_of_rounds_below hd hnum hden h hbase.1 hbase.2 neg

end Rounds

/-- The magnitude `m / 2 ^ k` of a number of the format. -/
structure Magnitude (m k : Nat) : Prop where
  pos : 0 < m
  low : k ≤ 1074
  fits : m < 2 ^ 53 ∨ k = 0 ∧ m < twoPow 1024 ∧ ∃ n e : Nat, n < 2 ^ 53 ∧ m = n * 2 ^ e

theorem reduced_shift (neg : Bool) (m k s : Nat) :
    reduced neg (m * 2 ^ s) (k + s) = reduced neg m k := by
  induction s with
  | zero => rw [pow_zero, mul_one, Nat.add_zero]
  | succ s ih =>
    have hhalf : m * 2 ^ (s + 1) = 2 * (m * 2 ^ s) := by ring
    rw [← Nat.add_assoc, reduced, hhalf, if_pos (by omega),
      Nat.mul_div_cancel_left _ (by decide), ih]

theorem scaled_shift (neg : Bool) {m : Nat} (hpos : 0 < m) (hm : m < 2 ^ 53) (k s : Nat) :
    scaled neg (m * 2 ^ s) (-((k + s : Nat) : ℤ)) = reduced neg m k := by
  have hne : ¬ m * 2 ^ s = 0 := Nat.mul_ne_zero hpos.ne' (Nat.two_pow_pos s).ne'
  rw [← reduced_shift neg m k s]
  simp only [scaled, hne, if_false]
  cases hj : k + s with
  | zero =>
    obtain rfl : s = 0 := by omega
    have hone : m * twoPow 0 = m := Nat.mul_one m
    have hzero : -((0 : Nat) : ℤ) = Int.ofNat 0 := rfl
    simp only [hzero, pow_zero, mul_one, hone, if_pos (lt_twoPow hm (by decide : 53 ≤ 1024))]
    rfl
  | succ j =>
    have hnegSucc : -((j + 1 : Nat) : ℤ) = Int.negSucc j := rfl
    simp only [hnegSucc]

section Magnitude

variable {m k : Nat} (h : Magnitude m k)
include h

/-- The two ways in which a significand is stored. -/
theorem Magnitude.cases :
    (m < 2 ^ 53 ∧ ∃ s, Dyadic.ofFraction m k = ⟨m * 2 ^ s, -((k + s : Nat) : ℤ)⟩
      ∧ m * 2 ^ s < 2 ^ 53 ∧ k + s ≤ 1074 ∧ (2 ^ 52 ≤ m * 2 ^ s ∨ k + s = 1074))
    ∨ (k = 0 ∧ ∃ n b : Nat, Dyadic.ofFraction m k = ⟨n, (b : ℤ)⟩ ∧ m = n * 2 ^ b
      ∧ m < twoPow 1024 ∧ 2 ^ 52 ≤ n ∧ n < 2 ^ 53 ∧ b ≤ 971) := by
  obtain ⟨hpos, hlow, hfits⟩ := h
  have hlog := Nat.log2_self_le hpos.ne'
  have hlog' := Nat.lt_log2_self (n := m)
  by_cases hbits : m.log2 + 1 ≤ 53
  · refine .inl ⟨hlog'.trans_le (Nat.pow_le_pow_right (by decide) hbits), ?_⟩
    set s := min (53 - (m.log2 + 1)) (1074 - k) with hs
    have hshift : m * 2 ^ s < 2 ^ (m.log2 + 1 + s) := by
      rw [pow_add]
      exact Nat.mul_lt_mul_of_pos_right hlog' (Nat.two_pow_pos s)
    refine ⟨s, ?_, ?_, by omega, ?_⟩
    · simp only [Dyadic.ofFraction, if_pos hbits, ← hs]
      rfl
    · exact hshift.trans_le (Nat.pow_le_pow_right (by decide) (by omega))
    · by_cases hcase : 53 - (m.log2 + 1) ≤ 1074 - k
      · refine .inl ?_
        have hsum : 52 = m.log2 + s := by omega
        calc 2 ^ 52 = 2 ^ m.log2 * 2 ^ s := by rw [← pow_add, ← hsum]
          _ ≤ m * 2 ^ s := Nat.mul_le_mul_right _ hlog
      · exact .inr (by omega)
  · have hlarge : ¬ m < 2 ^ 53 := fun hcon => by
      have := (Nat.log2_lt hpos.ne').mpr hcon
      omega
    obtain ⟨rfl, htop, n', e, hn', hm⟩ := hfits.resolve_left hlarge
    refine .inr ⟨rfl, m / 2 ^ (m.log2 + 1 - 53), m.log2 + 1 - 53, ?_, ?_, htop, ?_, ?_, ?_⟩
    · simp only [Dyadic.ofFraction, if_neg hbits]
      simp [twoPow]
    · refine (Nat.div_mul_cancel ?_).symm
      have hle : m.log2 + 1 - 53 ≤ e := by
        have : m < 2 ^ (53 + e) := by
          rw [hm, pow_add]
          exact Nat.mul_lt_mul_of_pos_right hn' (Nat.two_pow_pos e)
        have := (Nat.log2_lt hpos.ne').mpr this
        omega
      rw [hm]
      exact (Nat.pow_dvd_pow 2 (by rwa [← hm])).trans (Nat.dvd_mul_left _ _)
    · rw [Nat.le_div_iff_mul_le (Nat.two_pow_pos _), ← pow_add]
      exact (Nat.pow_le_pow_right (by decide) (by omega)).trans hlog
    · rw [Nat.div_lt_iff_lt_mul (Nat.two_pow_pos _), ← pow_add]
      exact hlog'.trans_le (Nat.pow_le_pow_right (by decide) (by omega))
    · rw [twoPow_eq] at htop
      have := (Nat.log2_lt hpos.ne').mpr htop
      omega

theorem Magnitude.stored : (Dyadic.ofFraction m k).Stored := by
  rcases h.cases with ⟨hm, s, heq, hlt, hle, hbits⟩ | ⟨-, n, b, heq, -, -, hlow, hhigh, hb⟩
  · rw [heq]
    refine ⟨Nat.mul_pos h.pos (Nat.two_pow_pos s), hlt, ?_, ?_, ?_⟩
    · simp only
      omega
    · simp only
      omega
    · simp only
      omega
  · rw [heq]
    refine ⟨Nat.lt_of_lt_of_le (by decide) hlow, hhigh, ?_, ?_, .inl hlow⟩
    · simp only
      omega
    · simp only
      omega

theorem Magnitude.value :
    ((Dyadic.ofFraction m k).m : ℚ) * 2 ^ (Dyadic.ofFraction m k).q = m / 2 ^ k := by
  rcases h.cases with ⟨hm, s, heq, -⟩ | ⟨rfl, n, b, heq, hm, -⟩
  · rw [heq]
    simp only
    rw [zpow_neg, zpow_natCast, pow_add]
    push_cast
    field_simp
  · rw [heq, hm]
    simp

theorem Magnitude.scaled (neg : Bool) :
    Number.scaled neg (Dyadic.ofFraction m k).m (Dyadic.ofFraction m k).q = reduced neg m k := by
  rcases h.cases with ⟨hm, s, heq, -⟩ | ⟨rfl, n, b, heq, hm, htop, hlow, -⟩
  · rw [heq]
    exact scaled_shift neg h.pos hm k s
  · have hn : ¬ n = 0 := by omega
    have hb : n * twoPow b = m := hm.symm
    rw [heq]
    simp only [Number.scaled, hn, if_false, reduced]
    simp only [hb, if_pos htop]

end Magnitude

/-- A number rounds to itself. -/
theorem Dyadic.rounds_self (d : Dyadic) : d.Rounds (d.m * 2 ^ d.q) := by
  have hunit := zpow_two_pos d.q
  have hreach := d.reach_le.1
  have hlow : ((d.m : ℚ) - d.reach) * 2 ^ d.q < d.m * 2 ^ d.q :=
    mul_lt_mul_of_pos_right (by linarith) hunit
  have hhigh : (d.m : ℚ) * 2 ^ d.q < (d.m + 1 / 2) * 2 ^ d.q :=
    mul_lt_mul_of_pos_right (by linarith) hunit
  exact ⟨hlow.le, hhigh.le, fun _ => ⟨hlow, hhigh⟩⟩

/-- Integers below `2 ^ 53` are numbers of the format. -/
theorem ofRatio_of_lt {n : Nat} (hpos : 0 < n) (hn : n < 2 ^ 53) (neg : Bool) :
    ofRatio neg n 1 = .whole (signed neg n) := by
  have hmagnitude : Magnitude n 0 := ⟨hpos, Nat.zero_le _, .inl hn⟩
  have hrounds := (Dyadic.ofFraction n 0).rounds_self
  rw [hmagnitude.value, pow_zero] at hrounds
  rw [ofRatio_of_rounds hmagnitude.stored (by decide) (by simpa using hrounds),
    hmagnitude.scaled, reduced]

/-! ## Rounded numerals -/

theorem digits_bounds {n : Nat} (hpos : 0 < n) :
    (10 : ℚ) ^ ((Nat.toDigits 10 n).length - 1 : ℤ) ≤ n
      ∧ (n : ℚ) < 10 ^ ((Nat.toDigits 10 n).length : ℤ) := by
  set l := (Nat.toDigits 10 n).length with hl
  have hlpos : 0 < l := List.length_pos_iff.mpr Nat.toDigits_ne_nil
  constructor
  · obtain ⟨j, hj⟩ : ∃ j, l = j + 1 := ⟨l - 1, by omega⟩
    have hle : 10 ^ j ≤ n := by
      rcases Nat.eq_zero_or_pos j with rfl | hjpos
      · simpa using Nat.succ_le_of_lt hpos
      · by_contra hcon
        have := (Nat.length_toDigits_le_iff (b := 10) (n := n) (by decide) hjpos).mpr (by omega)
        omega
    rw [hj]
    have hcast : ((j + 1 : Nat) : ℤ) - 1 = (j : ℤ) := by omega
    rw [hcast, zpow_natCast]
    exact_mod_cast hle
  · have := (Nat.length_toDigits_le_iff (b := 10) (n := n) (by decide) hlpos).mp (Nat.le_refl _)
    rw [zpow_natCast]
    exact_mod_cast this

theorem two_pow_le_ten_pow : (2 : ℚ) ^ (1024 : ℤ) ≤ 10 ^ (310 : ℤ) := by
  have h : 2 ^ 1024 ≤ 10 ^ 310 := by decide +kernel
  exact_mod_cast h

theorem ten_pow_le_two_pow : (10 : ℚ) ^ (-331 : ℤ) ≤ 2 ^ (-1075 : ℤ) := by
  have h : 2 ^ 1075 ≤ 10 ^ 331 := by decide +kernel
  have h' : (2 : ℚ) ^ 1075 ≤ 10 ^ 331 := by exact_mod_cast h
  rw [zpow_neg, zpow_neg]
  exact inv_anti₀ (by positivity) h'

/-- A decimal numeral that rounds to a dyadic number becomes that number. -/
theorem ofDecimal_of_rounds {d : Dyadic} (hd : d.Stored) {n : Nat} {e : ℤ}
    (h : d.Rounds (n * 10 ^ e)) (neg : Bool) : ofDecimal neg n e = scaled neg d.m d.q := by
  obtain ⟨hlow, hhigh⟩ := h.bounds hd
  have hunit := zpow_two_pos d.q
  have hn : 0 < n := by
    by_contra hcon
    obtain rfl : n = 0 := by omega
    simp only [Nat.cast_zero, zero_mul] at hlow
    linarith
  obtain ⟨hdigits, hdigits'⟩ := digits_bounds hn
  have hten : (0 : ℚ) < 10 ^ e := zpow_pos (by norm_num) e
  have habove : (10 : ℚ) ^ ((Nat.toDigits 10 n).length - 1 + e : ℤ) ≤ n * 10 ^ e := by
    rw [zpow_add₀ (by norm_num)]
    exact mul_le_mul_of_nonneg_right hdigits hten.le
  have hbelow : (n : ℚ) * 10 ^ e < 10 ^ ((Nat.toDigits 10 n).length + e : ℤ) := by
    rw [zpow_add₀ (by norm_num)]
    exact mul_lt_mul_of_pos_right hdigits' hten
  have hlargest : (2 : ℚ) ^ 53 * 2 ^ d.q ≤ 2 ^ (1024 : ℤ) := by
    rw [← zpow_natCast, ← zpow_add₀ (by norm_num)]
    exact zpow_le_zpow_right₀ (by norm_num) (by have := hd.high; push_cast; omega)
  have hsmallest : (2 : ℚ) ^ (-1075 : ℤ) ≤ 1 / 2 * 2 ^ d.q := by
    rw [one_div, ← zpow_neg_one, ← zpow_add₀ (by norm_num)]
    exact zpow_le_zpow_right₀ (by norm_num) (by have := hd.low; omega)
  simp only [ofDecimal, hn.ne', if_false]
  split_ifs with hsmall htop hbottom
  · obtain ⟨rfl, hlt⟩ := hsmall
    rw [zpow_zero, mul_one] at h
    rw [← ofRatio_of_lt hn hlt, ofRatio_of_rounds hd (by decide) (by simpa using h)]
  · have hpower : (10 : ℚ) ^ (310 : ℤ) ≤ 10 ^ ((Nat.toDigits 10 n).length - 1 + e : ℤ) :=
      zpow_le_zpow_right₀ (by norm_num) (by omega)
    exact absurd (two_pow_le_ten_pow.trans (hpower.trans habove))
      (not_le.mpr (hhigh.trans_le hlargest))
  · have hpower : (10 : ℚ) ^ ((Nat.toDigits 10 n).length + e : ℤ) ≤ 10 ^ (-331 : ℤ) :=
      zpow_le_zpow_right₀ (by norm_num) (by omega)
    exact absurd (hbelow.trans_le (hpower.trans ten_pow_le_two_pow))
      (not_lt.mpr (hsmallest.trans hlow))
  · cases e with
    | ofNat k =>
      simp only
      refine ofRatio_of_rounds hd (by decide) ?_ neg
      rw [Int.ofNat_eq_natCast, zpow_natCast] at h
      simpa [cast_tenPow] using h
    | negSucc k =>
      simp only
      refine ofRatio_of_rounds hd (tenPow_pos (k + 1)) ?_ neg
      rw [zpow_negSucc, ← div_eq_mul_inv] at h
      rwa [cast_tenPow]

end ParamForm.Number
