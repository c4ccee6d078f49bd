import Mathlib.Data.Nat.Cast.Order.Field
import ParamForm.Proofs.Number.Rounding

/-!
# Shortest numerals

The shortest numeral of a number lies in the interval that rounds to the number (`shortest_rounds`).
Every hit on a grid does by its own check; after the last grid the nearest point of the next one
does, because seventeen digits are closer together than the interval is wide.
-/

namespace ParamForm.Number

/-- The value of a numeral. -/
def Numeral.value (n : Numeral) : ℚ :=
  n.digits * 10 ^ n.exponent

theorem Numeral.ratio_eq (n : Numeral) : (n.ratio.1 : ℚ) / n.ratio.2 = n.value ∧ 0 < n.ratio.2 := by
  obtain ⟨digits, exponent⟩ := n
  cases exponent with
  | ofNat e =>
    simp [ratio, value, cast_tenPow]
  | negSucc k =>
    refine ⟨?_, tenPow_pos (k + 1)⟩
    simp only [ratio, value]
    rw [zpow_negSucc, ← div_eq_mul_inv, cast_tenPow]

/-- An interval is that of a dyadic number. -/
structure Interval.Around (i : Interval) (d : Dyadic) : Prop where
  den_pos : 0 < i.den
  low : (i.low : ℚ) / i.den = ((d.m : ℚ) - d.reach) * 2 ^ d.q
  mid : (i.mid : ℚ) / i.den = d.m * 2 ^ d.q
  high : (i.high : ℚ) / i.den = ((d.m : ℚ) + 1 / 2) * 2 ^ d.q
  closed : i.closed = decide (d.m % 2 = 0)

theorem Dyadic.Stored.around {d : Dyadic} (hd : d.Stored) : d.interval.Around d := by
  have hm := hd.pos
  set down := if d.m = twoPow 52 ∧ -1074 < d.q then 1 else 2 with hdown
  have hreach : d.reach = (down : ℚ) / 4 := by
    rw [reach, hdown]
    split_ifs <;> norm_num
  have hle : down ≤ 4 * d.m := by
    have : down ≤ 2 := by
      rw [hdown]
      split_ifs <;> decide
    omega
  have hquarter : (2 : ℚ) ^ d.q = 4 * 2 ^ (d.q - 2) := by
    rw [show d.q = 2 + (d.q - 2) by omega, zpow_add₀ (by norm_num)]
    norm_num
  have hcast : ((4 * d.m - down : Nat) : ℚ) = 4 * d.m - down := by
    rw [Nat.cast_sub hle]
    push_cast
    ring
  rw [interval]
  cases hq : d.q - 2 with
  | ofNat e =>
    rw [hq, Int.ofNat_eq_natCast, zpow_natCast] at hquarter
    simp only [← hdown]
    refine ⟨one_pos, ?_, ?_, ?_, rfl⟩
    · rw [Nat.cast_mul, hcast, cast_twoPow, hquarter, hreach]
      push_cast
      ring
    · rw [Nat.cast_mul, cast_twoPow, hquarter]
      push_cast
      ring
    · rw [Nat.cast_mul, cast_twoPow, hquarter]
      push_cast
      ring
  | negSucc k =>
    rw [hq, zpow_negSucc] at hquarter
    simp only [← hdown]
    refine ⟨Nat.two_pow_pos _, ?_, ?_, ?_, rfl⟩
    · rw [hcast, cast_twoPow, hquarter, hreach]
      ring
    · rw [cast_twoPow, hquarter]
      push_cast
      ring
    · rw [cast_twoPow, hquarter]
      push_cast
      ring

theorem Interval.nearer_eq_or (i : Interval) (lower : Numeral) :
    i.nearer lower = lower ∨ i.nearer lower = ⟨lower.digits + 1, lower.exponent⟩ := by
  rw [nearer]
  simp only
  split_ifs <;> simp

section Around

variable {i : Interval} {d : Dyadic} (h : i.Around d)
include h

theorem Interval.Around.rounds_of_holds {n : Numeral} (hn : i.holds n = true) :
    d.Rounds n.value := by
  obtain ⟨hvalue, hpos⟩ := n.ratio_eq
  have hden : (0 : ℚ) < i.den := by exact_mod_cast h.den_pos
  have hden' : (0 : ℚ) < n.ratio.2 := by exact_mod_cast hpos
  have hle {a b c e : Nat} (hb : (0 : ℚ) < b) (he : (0 : ℚ) < e) (hab : a * e ≤ c * b) :
      (a : ℚ) / b ≤ c / e := by
    rw [div_le_div_iff₀ hb he]
    exact_mod_cast hab
  have hlt {a b c e : Nat} (hb : (0 : ℚ) < b) (he : (0 : ℚ) < e) (hab : a * e < c * b) :
      (a : ℚ) / b < c / e := by
    rw [div_lt_div_iff₀ hb he]
    exact_mod_cast hab
  rw [Interval.holds] at hn
  simp only at hn
  split_ifs at hn with hclosed
  · simp only [Bool.and_eq_true, decide_eq_true_eq] at hn
    rw [← hvalue]
    refine ⟨?_, ?_, fun hodd => ?_⟩
    · rw [← h.low]
      exact hle hden hden' hn.1
    · rw [← h.high]
      exact hle hden' hden hn.2
    · rw [h.closed, decide_eq_true_eq] at hclosed
      omega
  · simp only [Bool.and_eq_true, decide_eq_true_eq] at hn
    have hlow := hlt hden hden' hn.1
    have hhigh := hlt hden' hden hn.2
    rw [h.low, hvalue] at hlow
    rw [h.high, hvalue] at hhigh
    exact ⟨hlow.le, hhigh.le, fun _ => ⟨hlow, hhigh⟩⟩

/-- A hit on a grid rounds to the number. -/
theorem Interval.Around.rounds_onGrid {e : ℤ} {n : Numeral} (hn : i.onGrid e = some n) :
    d.Rounds n.value := by
  rw [Interval.onGrid] at hn
  split at hn
  · rename_i hlower hupper
    rw [Bool.and_eq_true] at hlower
    simp only [Option.some.injEq] at hn
    rcases i.nearer_eq_or (i.below e) with hnear | hnear
    · rw [← hn, hnear]
      exact h.rounds_of_holds hlower.2
    · rw [← hn, hnear]
      exact h.rounds_of_holds hupper
  · rename_i hlower hupper
    rw [Bool.and_eq_true] at hlower
    simp only [Option.some.injEq] at hn
    rw [← hn]
    exact h.rounds_of_holds hlower.2
  · rename_i hlower hupper
    simp only [Option.some.injEq] at hn
    rw [← hn]
    exact h.rounds_of_holds hupper
  · simp at hn

/-- The search ends with a hit, or with the nearest point of the grid after the last one. -/
theorem Interval.Around.rounds_search :
    ∀ (steps : Nat) (e : ℤ), d.Rounds (i.nearer (i.below (e - steps))).value →
      d.Rounds (i.search e steps).value
  | 0, e, hlast => by
    rwa [Nat.cast_zero, sub_zero] at hlast
  | steps + 1, e, hlast => by
    rw [Interval.search]
    cases hgrid : i.onGrid e with
    | some n => exact h.rounds_onGrid hgrid
    | none =>
      refine rounds_search steps (e - 1) ?_
      have : e - 1 - (steps : ℤ) = e - ((steps + 1 : Nat) : ℤ) := by push_cast; ring
      rwa [this]

end Around

section LastGrid

variable {i : Interval} (hden : 0 < i.den)
include hden

/-- The grid point below the number of an interval is less than a step away. -/
theorem Interval.below_spec (e : ℤ) :
    (i.below e).exponent = e ∧ (i.below e).value ≤ (i.mid : ℚ) / i.den
      ∧ (i.mid : ℚ) / i.den < (i.below e).value + 10 ^ e := by
  have hden' : (0 : ℚ) < i.den := by exact_mod_cast hden
  have hfloor {a b : Nat} (hb : 0 < b) : ((a / b : Nat) : ℚ) ≤ (a : ℚ) / b
      ∧ (a : ℚ) / b < ((a / b : Nat) : ℚ) + 1 := by
    have hb' : (0 : ℚ) < b := by exact_mod_cast hb
    refine ⟨Nat.cast_div_le, ?_⟩
    rw [div_lt_iff₀ hb']
    have := Nat.lt_div_mul_add (a := a) hb
    have : a < (a / b + 1) * b := by
      rw [Nat.add_mul]
      omega
    exact_mod_cast this
  cases e with
  | ofNat k =>
    obtain ⟨hle, hlt⟩ := hfloor (a := i.mid) (Nat.mul_pos hden (tenPow_pos k))
    have hpow : (0 : ℚ) < 10 ^ k := by positivity
    rw [Nat.cast_mul, cast_tenPow, ← div_div] at hle hlt
    rw [le_div_iff₀ hpow] at hle
    rw [div_lt_iff₀ hpow, add_mul, one_mul] at hlt
    refine ⟨rfl, ?_, ?_⟩
    · simpa [below, Numeral.value] using hle
    · simpa [below, Numeral.value] using hlt
  | negSucc k =>
    obtain ⟨hle, hlt⟩ := hfloor (a := i.mid * tenPow (k + 1)) hden
    have hpow : (0 : ℚ) < 10 ^ (k + 1) := by positivity
    rw [Nat.cast_mul, cast_tenPow, mul_div_right_comm] at hle hlt
    refine ⟨rfl, ?_, ?_⟩
    · simp only [below, Numeral.value, zpow_negSucc]
      rwa [← div_eq_mul_inv, div_le_iff₀ hpow]
    · simp only [below, Numeral.value, zpow_negSucc]
      rwa [← div_eq_mul_inv, inv_eq_one_div, ← add_div, lt_div_iff₀ hpow]

/-- The nearest grid point is no more than half a step away. -/
theorem Interval.nearer_spec (e : ℤ) :
    |(i.nearer (i.below e)).value - (i.mid : ℚ) / i.den| ≤ 10 ^ e / 2 := by
  obtain ⟨hexponent, hlow, hhigh⟩ := i.below_spec hden e
  obtain ⟨hlower, hpos⟩ := (i.below e).ratio_eq
  have hvalue : (⟨(i.below e).digits + 1, (i.below e).exponent⟩ : Numeral).value
      = (i.below e).value + 10 ^ e := by
    simp only [Numeral.value, hexponent]
    push_cast
    ring
  have hupper : ((⟨(i.below e).digits + 1, (i.below e).exponent⟩ : Numeral).ratio.1 : ℚ)
      / (i.below e).ratio.2 = (i.below e).value + 10 ^ e := by
    have hsame : (⟨(i.below e).digits + 1, (i.below e).exponent⟩ : Numeral).ratio.2
        = (i.below e).ratio.2 := by
      unfold Numeral.ratio
      simp only
      cases (i.below e).exponent <;> rfl
    rw [← hsame, (Numeral.ratio_eq _).1, hvalue]
  set x := (i.mid : ℚ) / i.den with hx
  set l := (i.below e).value with hl
  set b := (⟨(i.below e).digits + 1, (i.below e).exponent⟩ : Numeral).ratio.1 with hb
  set a := (i.below e).ratio.1 with ha
  set g := (i.below e).ratio.2 with hg
  have hiden : (0 : ℚ) < i.den := by exact_mod_cast hden
  have hgpos : (0 : ℚ) < g := by exact_mod_cast hpos
  have hscale : (0 : ℚ) < i.den * g := mul_pos hiden hgpos
  have hmid : (i.mid : ℚ) = x * i.den := by rw [hx, div_mul_cancel₀ _ hiden.ne']
  have hafterLower : (a : ℚ) = l * g := by rw [← hlower, div_mul_cancel₀ _ hgpos.ne']
  have hafterUpper : (b : ℚ) = (l + 10 ^ e) * g := by rw [← hupper, div_mul_cancel₀ _ hgpos.ne']
  have hfromLower : ((i.mid * g - a * i.den : Nat) : ℚ) = (x - l) * (i.den * g) := by
    have hle : (a : ℚ) * i.den ≤ i.mid * g := by
      rw [hmid, hafterLower]
      nlinarith [mul_le_mul_of_nonneg_right hlow hscale.le]
    rw [Nat.cast_sub (by exact_mod_cast hle)]
    push_cast
    rw [hmid, hafterLower]
    ring
  have hfromUpper : ((b * i.den - i.mid * g : Nat) : ℚ) = (l + 10 ^ e - x) * (i.den * g) := by
    have hle : (i.mid : ℚ) * g ≤ b * i.den := by
      rw [hmid, hafterUpper]
      nlinarith [mul_le_mul_of_nonneg_right hhigh.le hscale.le]
    rw [Nat.cast_sub (by exact_mod_cast hle)]
    push_cast
    rw [hmid, hafterUpper]
    ring
  have hless {m n : Nat} {y z : ℚ} (hm : (m : ℚ) = y * (i.den * g))
      (hn : (n : ℚ) = z * (i.den * g)) : m < n ↔ y < z := by
    rw [← Nat.cast_lt (α := ℚ), hm, hn, mul_lt_mul_iff_left₀ hscale]
  rw [Interval.nearer]
  simp only [← ha, ← hg, ← hb, hless hfromLower hfromUpper, hless hfromUpper hfromLower]
  rw [abs_le]
  split_ifs with h1 h2 h3
  · rw [← hl]
    constructor <;> linarith
  · rw [hvalue]
    constructor <;> linarith
  · rw [← hl]
    constructor <;> linarith
  · rw [hvalue]
    constructor <;> linarith

end LastGrid

/-- The first digit of a ratio does not stand before its decimal point. -/
theorem decimalPoint_le {num den : Nat} (hnum : 0 < num) (hden : 0 < den) :
    (10 : ℚ) ^ (decimalPoint num den - 1) ≤ num / den := by
  have hden' : (0 : ℚ) < den := by exact_mod_cast hden
  rw [decimalPoint]
  split_ifs with h
  · have hpos : 0 < num / den := Nat.div_pos h hden
    rw [digitCount, if_neg hpos.ne']
    exact (digits_bounds hpos).1.trans Nat.cast_div_le
  · have hpos : 0 < (den - 1) / num := Nat.div_pos (by omega) hnum
    rw [digitCount, if_neg hpos.ne']
    set l := (Nat.toDigits 10 ((den - 1) / num)).length with hl
    have hlt := (digits_bounds hpos).2
    rw [zpow_natCast] at hlt
    have hlt' : (den - 1) / num < 10 ^ l := by exact_mod_cast hlt
    have hmul : den ≤ num * 10 ^ l := by
      have := (Nat.div_lt_iff_lt_mul hnum).mp hlt'
      rw [Nat.mul_comm]
      omega
    have hmul' : (den : ℚ) ≤ num * 10 ^ l := by exact_mod_cast hmul
    have hexponent : (1 : ℤ) - l - 1 = -(l : ℤ) := by ring
    have hpow : (0 : ℚ) < 10 ^ l := by positivity
    rw [hexponent, zpow_neg, zpow_natCast,
      inv_le_comm₀ hpow (div_pos (by exact_mod_cast hnum) hden'), inv_div,
      div_le_iff₀ (by exact_mod_cast hnum)]
    linarith

/-- Seventeen digits are enough: the nearest point of that grid rounds to the number. -/
theorem rounds_lastGrid {d : Dyadic} (hd : d.Stored) {i : Interval} (h : i.Around d) {e : ℤ}
    (he : (10 : ℚ) ^ (e + 16) ≤ d.m * 2 ^ d.q) : d.Rounds (i.nearer (i.below e)).value := by
  have hunit := zpow_two_pos d.q
  have hnear := i.nearer_spec h.den_pos e
  rw [h.mid, abs_le] at hnear
  have hstep : (10 : ℚ) ^ e * 10 ^ 16 ≤ d.m * 2 ^ d.q := by
    rw [zpow_add₀ (by norm_num)] at he
    exact_mod_cast he
  have hwidth : (10 : ℚ) ^ e / 2 < d.reach * 2 ^ d.q := by
    by_cases hcase : d.m = twoPow 52 ∧ -1074 < d.q
    · have hm : (d.m : ℚ) = 2 ^ 52 := by rw [hcase.1, cast_twoPow]
      rw [Dyadic.reach, if_pos hcase]
      rw [hm] at hstep
      norm_num at hstep ⊢
      linarith
    · have hm : (d.m : ℚ) * 2 ^ d.q ≤ (2 ^ 53 - 1) * 2 ^ d.q :=
        mul_le_mul_of_nonneg_right hd.le hunit.le
      rw [Dyadic.reach, if_neg hcase]
      norm_num at hstep hm ⊢
      linarith
  have hhalf : d.reach * 2 ^ d.q ≤ 1 / 2 * 2 ^ d.q :=
    mul_le_mul_of_nonneg_right d.reach_le.2 hunit.le
  have hlow : ((d.m : ℚ) - d.reach) * 2 ^ d.q < (i.nearer (i.below e)).value := by
    rw [sub_mul]
    linarith
  have hhigh : (i.nearer (i.below e)).value < ((d.m : ℚ) + 1 / 2) * 2 ^ d.q := by
    rw [add_mul]
    linarith
  exact ⟨hlow.le, hhigh.le, fun _ => ⟨hlow, hhigh⟩⟩

theorem Numeral.value_trimmed (steps : Nat) (n : Numeral) : (n.trimmed steps).value = n.value := by
  induction steps generalizing n with
  | zero => rfl
  | succ steps ih =>
    rw [trimmed]
    split_ifs with h
    · have hten : n.digits = n.digits / 10 * 10 := by omega
      have hcast : (n.digits : ℚ) = (n.digits / 10 : Nat) * 10 := by exact_mod_cast hten
      rw [ih, value, value, hcast, zpow_add₀ (by norm_num)]
      ring
    · rfl

theorem shortest_rounds {m k : Nat} (h : Magnitude m k) :
    (Dyadic.ofFraction m k).Rounds (shortest m k).value := by
  have hstored := h.stored
  have haround := hstored.around
  set d := Dyadic.ofFraction m k with hd
  set i := d.interval with hi
  have hmid : 0 < i.mid := by
    by_contra hcon
    have hzero : i.mid = 0 := by omega
    have hmid := haround.mid
    rw [hzero, Nat.cast_zero, zero_div] at hmid
    exact absurd hmid (mul_pos (by linarith [hstored.one_le]) (zpow_two_pos d.q)).ne
  have hpoint := decimalPoint_le hmid haround.den_pos
  rw [haround.mid] at hpoint
  rw [shortest, ← hd]
  simp only [← hi]
  rw [Numeral.value_trimmed]
  refine haround.rounds_search 16 _ (rounds_lastGrid hstored haround ?_)
  convert hpoint using 2
  push_cast
  ring

end ParamForm.Number
