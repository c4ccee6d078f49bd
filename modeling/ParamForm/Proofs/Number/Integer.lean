import Mathlib.Algebra.Order.Ring.Nat
import ParamForm.Proofs.Value.WellFormed

/-!
# Integers of the format

Every integer up to `2 ^ 53` is a number of the format. Above, an integer is rounded to a multiple
of a power of two (`Number.ofInt_of_le`): one that is a number of the format stays
(`Number.ofInt_of_representable`), and the one after it becomes its even neighbour
(`Number.ofInt_succ`).
-/

namespace ParamForm.Number

/-- How many binary digits of an integer do not fit into a significand. -/
def surplus (n : Nat) : Nat :=
  n.log2 - 52

theorem surplus_eq {n s : Nat} (hlow : 2 ^ 52 * 2 ^ s ≤ n) (hhigh : n < 2 ^ 53 * 2 ^ s) :
    surplus n = s := by
  rw [← Nat.pow_add] at hlow hhigh
  have hne : n ≠ 0 := by
    have := Nat.two_pow_pos (52 + s)
    omega
  have hlog : n.log2 = 52 + s := (Nat.log2_eq_iff hne).mpr ⟨hlow, by
    rwa [Nat.add_right_comm]⟩
  rw [surplus, hlog, Nat.add_sub_cancel_left]

section Large

variable {n : Nat} (h : 2 ^ 53 ≤ n)
include h

theorem log2_ge : 53 ≤ n.log2 :=
  (Nat.le_log2 (by omega)).mpr h

theorem surplus_pos : 0 < surplus n := by
  have := log2_ge h
  rw [surplus]
  omega

theorem surplus_low : 2 ^ 52 * 2 ^ surplus n ≤ n := by
  have := log2_ge h
  rw [← Nat.pow_add, surplus, Nat.add_sub_cancel' (by omega)]
  exact Nat.log2_self_le (by omega)

theorem surplus_high : n < 2 ^ 53 * 2 ^ surplus n := by
  have := log2_ge h
  rw [← Nat.pow_add, surplus, show 53 + (n.log2 - 52) = n.log2 + 1 by omega]
  exact Nat.lt_log2_self

/-- A large integer is rounded to a multiple of a power of two. -/
theorem ofInt_of_le :
    ofInt n = scaled false (divRound n (2 ^ surplus n)) (surplus n : Nat) := by
  have hne : n ≠ 0 := by omega
  have hexponent : binaryExponent n 1 = n.log2 := by
    have hone : Nat.log2 1 = 0 := by decide
    have hle : powLe n 1 (Int.ofNat n.log2) = true := by
      rw [powLe, decide_eq_true_eq, Nat.one_mul]
      exact Nat.log2_self_le hne
    simp only [binaryExponent, hone, Int.natCast_zero, Int.sub_zero]
    exact if_pos hle
  have hq : max (binaryExponent n 1 - 52) (-1074) = Int.ofNat (surplus n) := by
    have := log2_ge h
    rw [hexponent, surplus, Int.ofNat_eq_natCast]
    omega
  have hlarge : ¬ (n : Int).natAbs < twoPow 53 := Nat.not_lt.mpr h
  have hsign : decide ((n : Int) < 0) = false := by simp
  rw [ofInt, if_neg hlarge, hsign, Int.natAbs_natCast, ofRatio, if_neg (by omega), hq]
  simp only [Nat.one_mul]
  rfl

/-- A large integer of the format is a significand times the power of two that is rounded to. -/
theorem exists_significand (hrep : (whole n).Representable) :
    ∃ m, n = m * 2 ^ surplus n ∧ 2 ^ 52 ≤ m ∧ m < 2 ^ 53 := by
  obtain ⟨-, m, e, hm, hn⟩ := hrep
  rw [Int.natAbs_natCast] at hn
  have hlow := surplus_low h
  have hhigh := surplus_high h
  have hle : surplus n ≤ e := by
    have hlt : 2 ^ (52 + surplus n) < 2 ^ (53 + e) := by
      rw [Nat.pow_add, Nat.pow_add]
      calc 2 ^ 52 * 2 ^ surplus n ≤ n := hlow
        _ = m * 2 ^ e := hn
        _ < 2 ^ 53 * 2 ^ e := Nat.mul_lt_mul_of_pos_right hm (Nat.two_pow_pos e)
    have := (Nat.pow_lt_pow_iff_right (by decide : 1 < 2)).mp hlt
    omega
  have hdvd : 2 ^ surplus n ∣ n := by
    refine (Nat.pow_dvd_pow 2 hle).trans ?_
    conv_rhs => rw [hn]
    exact Nat.dvd_mul_left _ _
  refine ⟨n / 2 ^ surplus n, (Nat.div_mul_cancel hdvd).symm, ?_, ?_⟩
  · exact (Nat.le_div_iff_mul_le (Nat.two_pow_pos _)).mpr hlow
  · exact (Nat.div_lt_iff_lt_mul (Nat.two_pow_pos _)).mpr hhigh

end Large

theorem ofInt_of_lt {n : Nat} (h : n < 2 ^ 53) : ofInt n = .whole n := by
  have hsmall : (n : Int).natAbs < twoPow 53 := h
  rw [ofInt, if_pos hsmall]

theorem scaled_of_pos {m : Nat} (hm : 0 < m) (e : Nat) : scaled false m (e : Nat)
    = if m * 2 ^ e < twoPow 1024 then .whole (m * 2 ^ e : Nat) else .infinity false := by
  rw [scaled.eq_def, if_neg hm.ne']
  rfl

theorem divRound_mul_add {m d r : Nat} (hr : r < d) : divRound (m * d + r) d
    = if d < 2 * r ∨ (2 * r = d ∧ m % 2 = 1) then m + 1 else m := by
  have hdiv : (m * d + r) / d = m := by
    rw [Nat.mul_comm, Nat.mul_add_div (by omega), Nat.div_eq_of_lt hr, Nat.add_zero]
  have hmod : (m * d + r) % d = r := by
    rw [Nat.mul_comm, Nat.mul_add_mod, Nat.mod_eq_of_lt hr]
  rw [divRound, hdiv, hmod]

theorem div_le_divRound (num den : Nat) : num / den ≤ divRound num den := by
  simp only [divRound]
  split_ifs
  · exact Nat.le_succ _
  · exact Nat.le_refl _

/-- An integer of the format is not rounded. -/
theorem ofInt_of_representable {n : Nat} (hrep : (whole n).Representable) :
    ofInt n = .whole n := by
  by_cases h : n < 2 ^ 53
  · exact ofInt_of_lt h
  · rw [Nat.not_lt] at h
    obtain ⟨m, hn, hm, -⟩ := exists_significand h hrep
    have hunit := Nat.two_pow_pos (surplus n)
    have hround : divRound n (2 ^ surplus n) = m := by
      have hzero := divRound_mul_add (m := m) hunit
      rwa [Nat.add_zero, ← hn, if_neg (by omega)] at hzero
    have htop : m * 2 ^ surplus n < twoPow 1024 := hn ▸ hrep.1
    rw [ofInt_of_le h, hround, scaled_of_pos (by omega), if_pos htop, ← hn]

/-- The integer after a large one of the format is half way to the next one, or nearer. Half way
between two multiples of two, the even one is taken. -/
theorem ofInt_succ {n : Nat} (h : 2 ^ 53 ≤ n) (hrep : (whole n).Representable) :
    ofInt (n + 1 : Nat) = if n < 2 ^ 54 ∧ n % 4 = 2 then .whole (n + 2 : Nat) else .whole n := by
  obtain ⟨m, hn, hlow, hhigh⟩ := exists_significand h hrep
  have hpos := surplus_pos h
  have htop : n < twoPow 1024 := hrep.1
  generalize hs : surplus n = s at hn hpos
  have htwo : 2 ≤ 2 ^ s := Nat.pow_le_pow_right (by decide : 0 < 2) hpos
  have hnext : (m + 1) * 2 ^ s ≤ 2 ^ 53 * 2 ^ s := Nat.mul_le_mul_right _ hhigh
  have hsurplus : surplus (n + 1) = s := by
    refine surplus_eq ?_ ?_
    · have := Nat.mul_le_mul_right (2 ^ s) hlow
      omega
    · rw [Nat.add_mul] at hnext
      omega
  have hround := divRound_mul_add (m := m) (r := 1) (d := 2 ^ s) (by omega)
  rw [← hn] at hround
  rw [ofInt_of_le (by omega), hsurplus, hround]
  obtain rfl | hs : s = 1 ∨ 2 ≤ s := by omega
  · have hend : 2 ^ 54 + 2 < twoPow 1024 := by decide +kernel
    have hodd : (n < 2 ^ 54 ∧ n % 4 = 2) ↔ m % 2 = 1 := by omega
    simp only [hodd]
    split_ifs with hcond hm hm
    · rw [scaled_of_pos (by omega), if_pos (by omega)]
      congr 2
      omega
    · omega
    · omega
    · rw [scaled_of_pos (by omega), ← hn, if_pos htop]
  · have hfour : 2 ^ 2 ≤ 2 ^ s := Nat.pow_le_pow_right (by decide) hs
    have hlarge := Nat.mul_le_mul hlow hfour
    rw [if_neg (by omega), if_neg (by omega), scaled_of_pos (by omega), ← hn, if_pos htop]

/-- Rounding a larger integer does not lead below an integer of the format. -/
theorem le_of_ofInt_eq_whole {n x : Nat} {k : Int} (hrep : (whole n).Representable) (hle : n ≤ x)
    (hx : ofInt x = .whole k) : n ≤ k := by
  by_cases h : x < 2 ^ 53
  · rw [ofInt_of_lt h, whole.injEq] at hx
    omega
  · rw [Nat.not_lt] at h
    have hunit := Nat.two_pow_pos (surplus x)
    have hfloor : x / 2 ^ surplus x * 2 ^ surplus x ≤ divRound x (2 ^ surplus x) * 2 ^ surplus x :=
      Nat.mul_le_mul_right _ (div_le_divRound _ _)
    have hquotient : 2 ^ 52 ≤ x / 2 ^ surplus x :=
      (Nat.le_div_iff_mul_le hunit).mpr (surplus_low h)
    have hk : k = (divRound x (2 ^ surplus x) * 2 ^ surplus x : Nat) := by
      have hpos : 0 < divRound x (2 ^ surplus x) := by
        have := div_le_divRound x (2 ^ surplus x)
        omega
      rw [ofInt_of_le h, scaled_of_pos hpos] at hx
      split_ifs at hx with htop
      exact (whole.inj hx).symm
    have hn : n ≤ x / 2 ^ surplus x * 2 ^ surplus x := by
      by_cases hsmall : n < 2 ^ 52 * 2 ^ surplus x
      · have := Nat.mul_le_mul_right (2 ^ surplus x) hquotient
        omega
      · have htwo : 2 ^ 1 ≤ 2 ^ surplus x := Nat.pow_le_pow_right (by decide) (surplus_pos h)
        have hlarge := Nat.mul_le_mul_left (2 ^ 52) htwo
        have hsame : surplus n = surplus x :=
          surplus_eq (by omega) (hle.trans_lt (surplus_high h))
        obtain ⟨m, hm, -⟩ := exists_significand (by omega) hrep
        rw [hsame] at hm
        rw [hm] at hle ⊢
        exact Nat.mul_le_mul_right _ ((Nat.le_div_iff_mul_le hunit).mpr hle)
    omega

section Same

variable {x : Number} {n : Nat} (h : x.same (.whole n) = true)
include h

theorem eq_or_of_same : x = .whole n ∨ x = .negZero ∧ n = 0 := by
  cases x with
  | whole m => exact .inl (by simpa [same] using h)
  | negZero => exact .inr ⟨rfl, by simpa [same] using h⟩
  | _ => simp [same] at h

theorem isPositive_iff_of_same : x.isPositive = true ↔ 0 < n := by
  rcases eq_or_of_same h with rfl | ⟨rfl, rfl⟩
  · simp [isPositive]
  · decide

/-- Counting from an integer is rounding the sums. -/
theorem plus_of_same (i : Nat) : x.plus i = ofInt (n + i : Nat) := by
  rcases eq_or_of_same h with rfl | ⟨rfl, rfl⟩
  · rfl
  · rw [plus, Nat.zero_add]

theorem representable_of_same (hx : x.Representable) : (whole n).Representable := by
  rcases eq_or_of_same h with rfl | ⟨rfl, rfl⟩
  · exact hx
  · exact representable_whole (by decide)

end Same

end ParamForm.Number
