import ParamForm.Proofs.Number.Digits
import ParamForm.Proofs.Number.Shortest
import ParamForm.Proofs.Yaml.Cursor

/-!
# Texts of numerals

The text of a numeral is a run of digits, or it reads as the numeral: positionally with a point, or
with an exponent (`Numeral.text_spec`). A point before the exponent changes nothing
(`DecimalText.pointed`).
-/

namespace ParamForm.Number

open Yaml (startsWith span_append_of_startsWith)

/-- The characters that decimal numerals are made of. -/
def isNumeric (c : Char) : Bool :=
  c.isDigit || ['+', '-', '.', 'e'].contains c

theorem isNumeric_of_isDigit {c : Char} (h : c.isDigit = true) : isNumeric c = true := by
  simp [isNumeric, h]

theorem all_isNumeric_of_isDigit {cs : List Char} (h : cs.all Char.isDigit = true) :
    cs.all isNumeric = true := by
  rw [List.all_eq_true] at h ⊢
  exact fun c hc => isNumeric_of_isDigit (h c hc)

/-- A text that reads as a decimal numeral, and not as an integer. -/
structure DecimalText (body : List Char) (n : Nat) (e : ℤ) : Prop where
  starts : startsWith Char.isDigit body = true
  numeric : body.all isNumeric = true
  mark : ∃ c ∈ body, digitValue? c = none
  value : decimalNumeral? body = some (n, e)

/-- A text with a point between its first digits and an exponent. -/
def pointed (body : List Char) : List Char :=
  match body.span Char.isDigit with
  | (front, 'e' :: back) => front ++ '.' :: 'e' :: back
  | (front, back) => front ++ back

theorem pointed_of_isDigit {body : List Char} (h : body.all Char.isDigit = true) :
    pointed body = body := by
  have hspan : body.span Char.isDigit = (body, []) := by
    have happend : (body ++ []).span Char.isDigit = (body, []) := span_append_of_startsWith h rfl
    rwa [List.append_nil] at happend
  unfold pointed
  rw [hspan]
  exact List.append_nil body

theorem span_isDigit (body : List Char) :
    ∃ front back, body.span Char.isDigit = (front, back) ∧ body = front ++ back
      ∧ front.all Char.isDigit = true ∧ startsWith Char.isDigit back = false := by
  refine ⟨body.takeWhile Char.isDigit, body.dropWhile Char.isDigit, ?_, ?_, List.all_takeWhile, ?_⟩
  · exact List.span_eq_takeWhile_dropWhile _ _
  · exact List.takeWhile_append_dropWhile.symm
  · have := List.head?_dropWhile_not Char.isDigit body
    cases hd : body.dropWhile Char.isDigit with
    | nil => rfl
    | cons c cs =>
      rw [hd] at this
      simpa [startsWith] using this

theorem DecimalText.pointed {body : List Char} {n : Nat} {e : ℤ} (h : DecimalText body n e) :
    DecimalText (pointed body) n e := by
  obtain ⟨front, back, hspan, hbody, hfront, hback⟩ := span_isDigit body
  rw [Number.pointed, hspan]
  split
  · rename_i front' back' heq
    simp only [Prod.mk.injEq] at heq
    obtain ⟨rfl, rfl⟩ := heq
    obtain ⟨hstarts, hnumeric, -, hvalue⟩ := h
    have hne : front ≠ [] := by
      rintro rfl
      rw [hbody] at hstarts
      simp [startsWith] at hstarts
    refine ⟨?_, ?_, ⟨'.', by simp, by decide⟩, ?_⟩
    · cases front with
      | nil => exact absurd rfl hne
      | cons c cs =>
        rw [List.all_cons, Bool.and_eq_true] at hfront
        exact hfront.1
    · rw [hbody, List.all_append, Bool.and_eq_true] at hnumeric
      rw [List.all_append, List.all_cons, hnumeric.1, hnumeric.2]
      rfl
    · have hspan' : (front ++ '.' :: 'e' :: back').span Char.isDigit
          = (front, '.' :: 'e' :: back') := span_append_of_startsWith hfront rfl
      have hempty : ('e' :: back').span Char.isDigit = ([], 'e' :: back') := by
        have hnil : ([] : List Char).all Char.isDigit = true := rfl
        exact span_append_of_startsWith hnil hback
      rw [decimalNumeral?] at hvalue ⊢
      rw [hspan] at hvalue
      rw [hspan']
      simp only [hempty]
      simpa using hvalue
  · rename_i front' back' hno heq
    simp only [Prod.mk.injEq] at heq
    obtain ⟨rfl, rfl⟩ := heq
    rwa [← hbody]

section Parts

variable {front back tail : List Char} {e : ℤ}

theorem decimalNumeral?_point (hne : front ≠ []) (hfront : front.all Char.isDigit = true)
    (hback : back.all Char.isDigit = true) (htail : startsWith Char.isDigit tail = false)
    (he : exponentPart? tail = some e) :
    decimalNumeral? (front ++ '.' :: (back ++ tail))
      = some (digitsValue 10 0 (front ++ back), e - back.length) := by
  have hspan : (front ++ '.' :: (back ++ tail)).span Char.isDigit
      = (front, '.' :: (back ++ tail)) :=
    span_append_of_startsWith hfront rfl
  have hspan' : (back ++ tail).span Char.isDigit = (back, tail) :=
    span_append_of_startsWith hback htail
  unfold decimalNumeral?
  rw [hspan]
  simp only [hspan', List.isEmpty_iff, hne, false_and, if_false, he, Option.map_some]

theorem decimalNumeral?_noPoint (hne : front ≠ []) (hfront : front.all Char.isDigit = true)
    (htail : startsWith Char.isDigit tail = false) (hpoint : startsWith (· = '.') tail = false)
    (he : exponentPart? tail = some e) :
    decimalNumeral? (front ++ tail) = some (digitsValue 10 0 front, e) := by
  have hspan : (front ++ tail).span Char.isDigit = (front, tail) :=
    span_append_of_startsWith hfront htail
  unfold decimalNumeral?
  rw [hspan]
  cases tail with
  | nil => simpa [hne] using he
  | cons c cs =>
    have hc : c ≠ '.' := by simpa [startsWith] using hpoint
    simp [hne, he, hc]

theorem startsWith_isDigit_append (hne : front ≠ []) (hfront : front.all Char.isDigit = true)
    (rest : List Char) : startsWith Char.isDigit (front ++ rest) = true := by
  cases front with
  | nil => exact absurd rfl hne
  | cons c cs =>
    rw [List.all_cons, Bool.and_eq_true] at hfront
    exact hfront.1

theorem DecimalText.point (hne : front ≠ []) (hfront : front.all Char.isDigit = true)
    (hback : back.all Char.isDigit = true) (htail : startsWith Char.isDigit tail = false)
    (hnumeric : tail.all isNumeric = true) (he : exponentPart? tail = some e) :
    DecimalText (front ++ '.' :: (back ++ tail)) (digitsValue 10 0 (front ++ back))
      (e - back.length) := by
  refine ⟨startsWith_isDigit_append hne hfront _, ?_, ⟨'.', by simp, by decide⟩,
    decimalNumeral?_point hne hfront hback htail he⟩
  rw [List.all_append, List.all_cons, List.all_append, all_isNumeric_of_isDigit hfront,
    all_isNumeric_of_isDigit hback, hnumeric]
  rfl

theorem DecimalText.noPoint (hne : front ≠ []) (hfront : front.all Char.isDigit = true)
    (htail : startsWith Char.isDigit tail = false) (hpoint : startsWith (· = '.') tail = false)
    (hnumeric : tail.all isNumeric = true) (hmark : ∃ c ∈ tail, digitValue? c = none)
    (he : exponentPart? tail = some e) :
    DecimalText (front ++ tail) (digitsValue 10 0 front) e := by
  obtain ⟨c, hc, hnone⟩ := hmark
  refine ⟨startsWith_isDigit_append hne hfront _, ?_, ⟨c, by simp [hc], hnone⟩,
    decimalNumeral?_noPoint hne hfront htail hpoint he⟩
  rw [List.all_append, all_isNumeric_of_isDigit hfront, hnumeric]
  rfl

end Parts

theorem exponentPart?_sign (e : ℤ) :
    exponentPart? ('e' :: (if e < 0 then '-' else '+') :: Nat.toDigits 10 e.natAbs) = some e := by
  rcases lt_or_ge e 0 with h | h
  · have habs : -|e| = e := by rw [abs_of_neg h, neg_neg]
    rw [if_pos h]
    simp [exponentPart?, wholeNumeral?_toDigits, habs]
  · rw [if_neg (by omega)]
    simp [exponentPart?, wholeNumeral?_toDigits, h]

namespace Numeral

variable {d : Numeral} {ds : List Char}

theorem text_whole (hds : Nat.toDigits 10 d.digits = ds) (h : 0 ≤ d.exponent)
    (hhigh : (ds.length : ℤ) + d.exponent ≤ 21) :
    d.text = ds ++ List.replicate d.exponent.toNat '0' := by
  unfold text
  simp only [hds]
  rw [if_pos ⟨by omega, hhigh⟩]
  congr 2
  omega

/-- A point among the digits. -/
theorem text_inside (hds : Nat.toDigits 10 d.digits = ds) (hvalue : digitsValue 10 0 ds = d.digits)
    (hall : ds.all Char.isDigit = true) (h : d.exponent < 0)
    (hlow : 0 < (ds.length : ℤ) + d.exponent) (hhigh : (ds.length : ℤ) + d.exponent ≤ 21) :
    DecimalText d.text d.digits d.exponent := by
  obtain ⟨p, hp⟩ : ∃ p : ℕ, (ds.length : ℤ) + d.exponent = p :=
    ⟨_, (Int.toNat_of_nonneg hlow.le).symm⟩
  have htext : d.text = ds.take p ++ '.' :: (ds.drop p ++ []) := by
    unfold text
    simp only [hds]
    rw [if_neg (by omega), if_pos ⟨hlow, hhigh⟩, hp, Int.toNat_natCast, List.append_nil]
  have hne : ds.take p ≠ [] := by
    rw [Ne, List.take_eq_nil_iff]
    rintro (rfl | rfl)
    · omega
    · simp at hp
      omega
  rw [← List.take_append_drop p ds, List.all_append, Bool.and_eq_true] at hall
  have hpoint : DecimalText (ds.take p ++ '.' :: (ds.drop p ++ []))
      (digitsValue 10 0 (ds.take p ++ ds.drop p)) (0 - (ds.drop p).length) :=
    DecimalText.point hne hall.1 hall.2 rfl rfl rfl
  rw [List.take_append_drop, hvalue, List.length_drop] at hpoint
  rw [htext]
  convert hpoint using 1
  omega

/-- A point before the digits. -/
theorem text_before (hds : Nat.toDigits 10 d.digits = ds) (hvalue : digitsValue 10 0 ds = d.digits)
    (hall : ds.all Char.isDigit = true) (hne : ds ≠ []) (hlow : -6 < (ds.length : ℤ) + d.exponent)
    (hhigh : (ds.length : ℤ) + d.exponent ≤ 0) : DecimalText d.text d.digits d.exponent := by
  have hpos := List.length_pos_of_ne_nil hne
  obtain ⟨z, hz⟩ : ∃ z : ℕ, -((ds.length : ℤ) + d.exponent) = z :=
    ⟨_, (Int.toNat_of_nonneg (by omega)).symm⟩
  have htext : d.text = ['0'] ++ '.' :: ((List.replicate z '0' ++ ds) ++ []) := by
    unfold text
    simp only [hds]
    rw [if_neg (by omega), if_neg (by omega), if_pos ⟨hlow, hhigh⟩, hz, Int.toNat_natCast,
      List.append_nil]
    rfl
  have hzeros : (List.replicate z '0' ++ ds).all Char.isDigit = true := by
    rw [List.all_append, hall, Bool.and_true, List.all_eq_true]
    intro c hc
    rw [List.eq_of_mem_replicate hc]
    rfl
  have hpoint : DecimalText (['0'] ++ '.' :: ((List.replicate z '0' ++ ds) ++ []))
      (digitsValue 10 0 (['0'] ++ (List.replicate z '0' ++ ds)))
      (0 - (List.replicate z '0' ++ ds).length) :=
    DecimalText.point (by simp) rfl hzeros rfl rfl rfl
  have hfront : digitsValue 10 0 (['0'] ++ (List.replicate z '0' ++ ds)) = d.digits := by
    rw [← hvalue, ← List.append_assoc]
    exact digitsValue_zeros_append 10 (z + 1) ds
  rw [hfront, List.length_append, List.length_replicate] at hpoint
  rw [htext]
  convert hpoint using 1
  omega

theorem all_isNumeric_exponent (e : ℤ) :
    ('e' :: (if e < 0 then '-' else '+') :: Nat.toDigits 10 e.natAbs).all isNumeric = true := by
  rw [List.all_cons, List.all_cons, all_isNumeric_of_isDigit (all_isDigit_toDigits _)]
  split_ifs <;> rfl

/-- An exponent after the digits. -/
theorem text_exponent (hds : Nat.toDigits 10 d.digits = ds)
    (hvalue : digitsValue 10 0 ds = d.digits) (hall : ds.all Char.isDigit = true) (hne : ds ≠ [])
    (h : (ds.length : ℤ) + d.exponent ≤ -6 ∨ 21 < (ds.length : ℤ) + d.exponent) :
    DecimalText d.text d.digits d.exponent := by
  have hpos := List.length_pos_of_ne_nil hne
  generalize he : (ds.length : ℤ) + d.exponent - 1 = e
  generalize htail : 'e' :: (if e < 0 then '-' else '+') :: Nat.toDigits 10 e.natAbs = tail
  have hnumeric : tail.all isNumeric = true := htail ▸ all_isNumeric_exponent e
  have hpart : exponentPart? tail = some e := htail ▸ exponentPart?_sign e
  have htext : d.text
      = ds.take 1 ++ ((if ds.length = 1 then [] else '.' :: ds.drop 1) ++ tail) := by
    unfold text
    simp only [hds, he]
    rw [if_neg (by omega), if_neg (by omega), if_neg (by omega), htail, List.append_assoc]
  rw [htext]
  split_ifs with hlen
  · have hmark : ∃ c ∈ tail, digitValue? c = none := by
      refine ⟨if e < 0 then '-' else '+', by simp [← htail], ?_⟩
      split_ifs <;> rfl
    rw [List.take_of_length_le (by omega)]
    have := DecimalText.noPoint hne hall (htail ▸ rfl) (htail ▸ rfl) hnumeric hmark hpart
    rw [hvalue] at this
    convert this using 1
    · rfl
    · omega
  · have htake : ds.take 1 ≠ [] := by
      rw [Ne, List.take_eq_nil_iff]
      simp [hne]
    rw [← List.take_append_drop 1 ds, List.all_append, Bool.and_eq_true] at hall
    have := DecimalText.point htake hall.1 hall.2 (htail ▸ rfl) hnumeric hpart
    rw [List.take_append_drop, hvalue, List.length_drop] at this
    convert this using 1
    · rfl
    · omega

/-- A numeral is written as digits with zeros after them, or as a text that reads as it. -/
theorem text_spec (d : Numeral) :
    (0 ≤ d.exponent ∧ d.text = Nat.toDigits 10 d.digits ++ List.replicate d.exponent.toNat '0')
      ∨ DecimalText d.text d.digits d.exponent := by
  have hvalue : digitsValue 10 0 (Nat.toDigits 10 d.digits) = d.digits :=
    digitsValue_toDigits (by decide) (by decide) d.digits
  have hall := all_isDigit_toDigits d.digits
  have hne : Nat.toDigits 10 d.digits ≠ [] := Nat.toDigits_ne_nil
  generalize hds : Nat.toDigits 10 d.digits = ds at *
  have hpos := List.length_pos_of_ne_nil hne
  by_cases hrange : -6 < (ds.length : ℤ) + d.exponent ∧ (ds.length : ℤ) + d.exponent ≤ 21
  · obtain ⟨hlow, hhigh⟩ := hrange
    rcases lt_or_ge d.exponent 0 with h | h
    · rcases lt_or_ge 0 ((ds.length : ℤ) + d.exponent) with hin | hin
      · exact .inr (text_inside hds hvalue hall h hin hhigh)
      · exact .inr (text_before hds hvalue hall hne hlow hin)
    · exact .inl ⟨h, text_whole hds h hhigh⟩
  · exact .inr (text_exponent hds hvalue hall hne (by omega))

end Numeral

/-- A text that reads as the number `x neg` after a sign: an integer, or a decimal numeral. -/
inductive MagnitudeText (body : List Char) (x : Bool → Number) : Prop where
  | integer (hne : body ≠ []) (hdigits : body.all Char.isDigit = true)
      (hpos : 0 < digitsValue 10 0 body)
      (hx : ∀ neg, ofRatio neg (digitsValue 10 0 body) 1 = x neg)
  | decimal {n : Nat} {e : ℤ} (h : DecimalText body n e) (hx : ∀ neg, ofDecimal neg n e = x neg)

theorem MagnitudeText.pointed {body : List Char} {x : Bool → Number} (h : MagnitudeText body x) :
    MagnitudeText (pointed body) x := by
  cases h with
  | integer hne hdigits hpos hx =>
    rw [pointed_of_isDigit hdigits]
    exact .integer hne hdigits hpos hx
  | decimal h hx => exact .decimal h.pointed hx

theorem magnitudeText_spec {m k : Nat} (h : Magnitude m k) :
    MagnitudeText (magnitudeText m k) fun neg => reduced neg m k := by
  unfold magnitudeText
  split_ifs with hsmall
  · obtain ⟨rfl, hm⟩ := hsmall
    have hvalue : digitsValue 10 0 (Nat.toDigits 10 m) = m :=
      digitsValue_toDigits (by decide) (by decide) m
    refine .integer Nat.toDigits_ne_nil (all_isDigit_toDigits m) ?_ fun neg => ?_
    · rw [hvalue]
      exact h.pos
    · rw [hvalue, ofRatio_of_lt h.pos hm, reduced]
  · have hrounds := shortest_rounds h
    rw [Numeral.value] at hrounds
    rcases (shortest m k).text_spec with ⟨hexp, htext⟩ | htext
    · obtain ⟨z, hz⟩ := Int.eq_ofNat_of_zero_le hexp
      have hvalue : digitsValue 10 0 (shortest m k).text = (shortest m k).digits * 10 ^ z := by
        rw [htext, hz, Int.toNat_natCast, digitsValue_append, digitsValue_zeros,
          digitsValue_toDigits (by decide) (by decide)]
      have hdigits : (shortest m k).text.all Char.isDigit = true := by
        rw [htext, List.all_append, all_isDigit_toDigits, List.all_replicate]
        simp
      have hcast : ((shortest m k).digits : ℚ) * 10 ^ (shortest m k).exponent
          = (digitsValue 10 0 (shortest m k).text : ℕ) / (1 : ℕ) := by
        rw [hvalue, hz]
        simp
      rw [hcast] at hrounds
      refine .integer (by simp [htext]) hdigits ?_ fun neg => ?_
      · have hpos := (hrounds.bounds h.stored).1
        have hunit := zpow_two_pos (Dyadic.ofFraction m k).q
        rw [Nat.cast_one, div_one] at hpos
        have : (0 : ℚ) < (digitsValue 10 0 (shortest m k).text : ℕ) := by linarith
        exact_mod_cast this
      · rw [ofRatio_of_rounds h.stored (by decide) hrounds, h.scaled]
    · refine .decimal htext fun neg => ?_
      rw [ofDecimal_of_rounds h.stored hrounds, h.scaled]

theorem isFinite_reduced (neg : Bool) (m k : Nat) : (reduced neg m k).isFinite = true := by
  fun_induction reduced neg m k with
  | case1 => rfl
  | case2 m k h ih => exact ih
  | case3 => rfl

end ParamForm.Number
