import Mathlib.Algebra.Order.Ring.Nat
import ParamForm.Number.Literal

/-!
# Digits

The digits of a number read back as the number (`digitsValue_toDigits`), in either case of letters,
with zeros before them, and as a run of digits that is nothing else (`wholeNumeral?_toDigits`).
-/

namespace ParamForm

theorem digitValue?_digitChar {n : Nat} (h : n < 16) : digitValue? n.digitChar = some n := by
  have all : ∀ n < 16, digitValue? n.digitChar = some n := by decide
  exact all n h

theorem digitValue?_upper_digitChar {n : Nat} (h : n < 16) :
    digitValue? n.digitChar.toUpper = some n := by
  have all : ∀ n < 16, digitValue? n.digitChar.toUpper = some n := by decide
  exact all n h

@[simp]
theorem digitsValue_nil (base acc : Nat) : digitsValue base acc [] = acc := rfl

theorem digitsValue_cons (base acc : Nat) (c : Char) (cs : List Char) :
    digitsValue base acc (c :: cs)
      = digitsValue base (acc * base + (digitValue? c).getD 0) cs := rfl

theorem digitsValue_append (base acc : Nat) (as bs : List Char) :
    digitsValue base acc (as ++ bs) = digitsValue base (digitsValue base acc as) bs :=
  List.foldl_append

theorem digitsValue_zeros (base acc n : Nat) :
    digitsValue base acc (List.replicate n '0') = acc * base ^ n := by
  induction n generalizing acc with
  | zero => simp
  | succ n ih =>
    have hzero : (digitValue? '0').getD 0 = 0 := by decide
    rw [List.replicate_succ, digitsValue_cons, hzero, ih, Nat.pow_succ]
    simp only [Nat.add_zero, Nat.mul_assoc, Nat.mul_comm base]

theorem digitsValue_zeros_append (base n : Nat) (cs : List Char) :
    digitsValue base 0 (List.replicate n '0' ++ cs) = digitsValue base 0 cs := by
  rw [digitsValue_append, digitsValue_zeros, Nat.zero_mul]

theorem digitsValue_map_toDigits {f : Char → Char} {base : Nat} (hb : 1 < base)
    (hf : ∀ n < base, digitValue? (f n.digitChar) = some n) (n : Nat) :
    digitsValue base 0 ((Nat.toDigits base n).map f) = n := by
  induction n using Nat.strongRecOn with
  | ind n ih =>
    rw [Nat.toDigits_eq_if hb]
    split_ifs with h
    · simp [digitsValue_cons, hf n h]
    · have hlt : n / base < n := Nat.div_lt_self (by omega) hb
      have hmod : n % base < base := Nat.mod_lt n (by omega)
      rw [List.map_append, digitsValue_append, ih _ hlt]
      simp [digitsValue_cons, hf _ hmod, Nat.div_add_mod']

theorem digitsValue_toDigits {base : Nat} (hb : 1 < base) (hb' : base ≤ 16) (n : Nat) :
    digitsValue base 0 (Nat.toDigits base n) = n := by
  have := digitsValue_map_toDigits (f := id) hb
    (fun n hn => digitValue?_digitChar (by omega)) n
  rwa [List.map_id] at this

/-- What holds of the ten digits holds of each character that is one. -/
theorem of_isDigit {p : Char → Bool} (hp : "0123456789".toList.all p = true) {c : Char}
    (h : c.isDigit = true) : p c = true := by
  have all : ∀ n < 58, 48 ≤ n → Char.ofNat n ∈ "0123456789".toList := by decide
  simp only [Char.isDigit, Bool.and_eq_true, decide_eq_true_eq] at h
  have hlow : 48 ≤ c.toNat := h.1
  have hhigh : c.toNat ≤ 57 := h.2
  have hmem := all c.toNat (by omega) hlow
  rw [Char.ofNat_toNat] at hmem
  exact List.all_eq_true.mp hp c hmem

theorem isDigit_of_mem_toDigits_ten {n : Nat} {c : Char} (h : c ∈ Nat.toDigits 10 n) :
    c.isDigit = true :=
  Nat.isDigit_of_mem_toDigits (by decide) (by decide) h

theorem all_isDigit_toDigits (n : Nat) : (Nat.toDigits 10 n).all Char.isDigit = true := by
  rw [List.all_eq_true]
  exact fun c hc => isDigit_of_mem_toDigits_ten hc

theorem digitIn?_of_isDigit {c : Char} (h : c.isDigit = true) : (digitIn? 10 c).isSome = true := by
  have hc : '0' ≤ c ∧ c ≤ '9' := by
    simpa [Char.isDigit, Char.le_def] using h
  have h9 : c.toNat ≤ '9'.toNat := hc.2
  have hval : c.toNat - '0'.toNat < 10 := by
    have : '9'.toNat = 57 := rfl
    have : '0'.toNat = 48 := rfl
    omega
  simp only [digitIn?, digitValue?, if_pos hc, Option.filter_some, decide_eq_true hval, if_true,
    Option.isSome_some]

/-- A nonempty run of decimal digits is a numeral of its value. -/
theorem wholeNumeral?_of_isDigit {cs : List Char} (hne : cs ≠ []) (h : cs.all Char.isDigit = true) :
    wholeNumeral? 10 cs = some (digitsValue 10 0 cs) := by
  have hall : cs.all (fun c => (digitIn? 10 c).isSome) = true := by
    rw [List.all_eq_true] at h ⊢
    exact fun c hc => digitIn?_of_isDigit (h c hc)
  have hempty : cs.isEmpty = false := by simpa using hne
  simp [wholeNumeral?, hempty, hall]

theorem wholeNumeral?_toDigits (n : Nat) : wholeNumeral? 10 (Nat.toDigits 10 n) = some n := by
  rw [wholeNumeral?_of_isDigit Nat.toDigits_ne_nil (all_isDigit_toDigits n),
    digitsValue_toDigits (by decide) (by decide)]

/-- A run that holds something else than a digit is no numeral. -/
theorem wholeNumeral?_eq_none {base : Nat} {cs : List Char} {c : Char} (hc : c ∈ cs)
    (hdigit : digitValue? c = none) : wholeNumeral? base cs = none := by
  have hall : cs.all (fun c => (digitIn? base c).isSome) = false := by
    rw [List.all_eq_false]
    exact ⟨c, hc, by simp [digitIn?, hdigit]⟩
  simp [wholeNumeral?, hall]

theorem head_toDigits_ne_zero {n : Nat} (h : 0 < n) : ∃ c cs, Nat.toDigits 10 n = c :: cs ∧
    c ≠ '0' ∧ c.isDigit = true := by
  induction n using Nat.strongRecOn with
  | ind n ih =>
    rw [Nat.toDigits_eq_if (by decide)]
    split_ifs with hn
    · refine ⟨n.digitChar, [], rfl, ?_, ?_⟩
      · rw [Ne, Nat.digitChar_eq_zero]
        omega
      · rw [Nat.isDigit_digitChar, decide_eq_true hn]
    · obtain ⟨c, cs, hcs, hzero, hdigit⟩ := ih (n / 10) (by omega) (by omega)
      exact ⟨c, cs ++ [(n % 10).digitChar], by rw [hcs]; rfl, hzero, hdigit⟩

end ParamForm
