import ParamForm.Proofs.Number.Numeral
import ParamForm.Proofs.Value.WellFormed
import ParamForm.Proofs.Yaml.Scalar

/-!
# Numbers as plain scalars

The text that the writer gives a number is a plain scalar, which reads back as an integer or a float
with the same value (`inline_number`).
-/

namespace ParamForm.Yaml

open Number (isNumeric MagnitudeText DecimalText pointed)

/-- What holds of the characters of numerals is checked on the fourteen of them. -/
theorem of_isNumeric {p : Char → Bool} (hdigits : "0123456789".toList.all p = true)
    (hmarks : ['+', '-', '.', 'e'].all p = true) {c : Char} (h : isNumeric c = true) :
    p c = true := by
  rw [isNumeric, Bool.or_eq_true, List.contains_iff_mem] at h
  rcases h with h | h
  · exact of_isDigit hdigits h
  · exact List.all_eq_true.mp hmarks c h

theorem allMayFollow_of_isNumeric {cs : List Char} (h : cs.all isNumeric = true)
    (before : Option Char) (hbefore : before ≠ some ':') : allMayFollow before cs = true := by
  induction cs generalizing before with
  | nil => rfl
  | cons c cs ih =>
    rw [List.all_cons, Bool.and_eq_true] at h
    have hc : (c ≠ '#' && c ≠ ':') = true :=
      of_isNumeric (p := fun c => c ≠ '#' && c ≠ ':') (by decide) (by decide) h.1
    simp only [Bool.and_eq_true, decide_eq_true_eq] at hc
    rw [allMayFollow, ih h.2 (some c) (by simpa using hc.2)]
    simp [mayFollow, hc.1, hbefore]

/-- No letter of a numeral names a base. -/
theorem magnitude?_of_isNumeric {body : List Char} (hnumeric : body.all isNumeric = true) :
    magnitude? body = wholeNumeral? 10 body := by
  unfold magnitude?
  split
  all_goals first
    | rfl
    | (simp only [List.all_cons, Bool.and_eq_true] at hnumeric
       exact absurd hnumeric.2.1 (by decide))

/-- The text of a magnitude with a sign. -/
def withSign (neg : Bool) (body : List Char) : List Char :=
  if neg then '-' :: body else body

theorem withSign_all {body : List Char} (h : body.all isNumeric = true) (neg : Bool) :
    (withSign neg body).all isNumeric = true := by
  cases neg
  · exact h
  · exact h

/-- A numeral is none of some words that begin with other characters. -/
theorem contains_eq_false {words : List String} {cs : List Char}
    (hcs : startsWith (fun c => c.isDigit || c = '-') cs = true)
    (hwords : words.all (fun w => !startsWith (fun c => c.isDigit || c = '-') w.toList) = true) :
    words.contains (String.ofList cs) = false := by
  rw [← Bool.not_eq_true, List.contains_iff_mem]
  intro hmem
  have := List.all_eq_true.mp hwords _ hmem
  rw [String.toList_ofList, hcs] at this
  simp at this

section Signed

variable {body : List Char} (hstarts : startsWith Char.isDigit body = true) (neg : Bool)

include hstarts

theorem startsWith_of_isDigit {p : Char → Bool} (hp : "0123456789".toList.all p = true) :
    startsWith p body = true := by
  cases body with
  | nil => simp [startsWith] at hstarts
  | cons c cs => exact of_isDigit hp hstarts

theorem startsWith_withSign {p : Char → Bool} (hp : "0123456789-".toList.all p = true) :
    startsWith p (withSign neg body) = true := by
  cases neg
  · refine startsWith_of_isDigit hstarts ?_
    exact List.all_eq_true.mpr fun c hc =>
      List.all_eq_true.mp hp c ((by decide : "0123456789".toList ⊆ "0123456789-".toList) hc)
  · exact List.all_eq_true.mp hp '-' (by decide)

theorem signed_withSign : signed (withSign neg body) = (neg, body) := by
  cases neg
  · have hsign := startsWith_of_isDigit hstarts (p := fun c => c ≠ '-' && c ≠ '+') (by decide)
    cases body with
    | nil => rfl
    | cons c cs =>
      simp only [startsWith, Bool.and_eq_true, decide_eq_true_eq] at hsign
      simp [withSign, signed, hsign]
  · rfl

theorem opensContent_withSign : opensContent (withSign neg body) = true := by
  cases body with
  | nil => simp [startsWith] at hstarts
  | cons c cs =>
    cases neg
    · have := startsWith_of_isDigit hstarts
        (p := fun c => !isSpacing c && !(['#', '!', '&', '?', ':', '%'].contains c) && c ≠ '-')
        (by decide)
      simp only [startsWith, Bool.and_eq_true, decide_eq_true_eq] at this
      obtain ⟨⟨hspacing, hmark⟩, hminus⟩ := this
      unfold withSign opensContent
      simp only [Bool.false_eq_true, if_false]
      rw [hspacing, hmark]
      simp [hminus]
    · have := startsWith_of_isDigit hstarts (p := fun c => !isSpacing c) (by decide)
      simp only [startsWith, Bool.not_eq_true'] at this
      simp [withSign, opensContent, startsWith, this]
      decide

theorem startsPlain_withSign (inFlow : Bool) (rest : List Char) :
    startsPlain inFlow (withSign neg body ++ rest) = true := by
  cases body with
  | nil => simp [startsWith] at hstarts
  | cons c cs =>
    have := startsWith_of_isDigit hstarts (p := fun c => !isSpacing c && !isFlowIndicator c
      && c ≠ '?' && c ≠ '-' && !(isSpacing c || isFlowIndicator c || indicators.contains c))
      (by decide)
    simp only [startsWith, Bool.and_eq_true, decide_eq_true_eq, Bool.not_eq_true'] at this
    obtain ⟨⟨⟨⟨hspacing, hflow⟩, hquestion⟩, hminus⟩, hopens⟩ := this
    cases neg
    · change startsPlain inFlow (c :: (cs ++ rest)) = true
      rw [startsPlain, hopens]
      simp [hquestion, hminus]
    · change startsPlain inFlow ('-' :: c :: (cs ++ rest)) = true
      simp [startsPlain, startsWith, hspacing, hflow]
      decide

theorem plainLine_withSign (hnumeric : body.all isNumeric = true) :
    PlainLine (withSign neg body) where
  starts := startsPlain_withSign hstarts neg false
  writable := by
    rw [List.all_eq_true]
    intro c hc
    exact of_isNumeric (p := isWritable) (by decide) (by decide)
      (List.all_eq_true.mp (withSign_all hnumeric neg) c hc)
  follow := allMayFollow_of_isNumeric (withSign_all hnumeric neg) none (by simp)
  last := by
    have hne : withSign neg body ≠ [] := by
      intro hnil
      have := startsWith_withSign hstarts neg (p := fun _ => true) (by decide)
      rw [hnil] at this
      simp [startsWith] at this
    have hlast := List.all_eq_true.mp (withSign_all hnumeric neg) _ (List.getLast_mem hne)
    rw [List.getLast?_eq_some_getLast hne]
    exact of_isNumeric (p := fun c => !isWhite c && c ≠ ':') (by decide) (by decide) hlast

theorem startsNumeral_withSign :
    startsWith (fun c => c.isDigit || c = '-') (withSign neg body) = true :=
  startsWith_withSign hstarts neg (by decide)

theorem isNullText_withSign : isNullText (withSign neg body) = false :=
  contains_eq_false (startsNumeral_withSign hstarts neg) (by decide)

theorem boolText?_withSign : boolText? (withSign neg body) = none := by
  have hcs := startsNumeral_withSign hstarts neg
  unfold boolText?
  simp only
  rw [contains_eq_false hcs (by decide), contains_eq_false hcs (by decide)]
  rfl

theorem implicit?_of_int {x : Number} (hint : int? (withSign neg body) = some x) :
    implicit? (.leaf (.text (String.ofList (withSign neg body))))
      = some (.int, .value (.leaf (.number x))) := by
  simp [implicit?, CoreType.implicit, firstTaking, CoreType.construct, CoreType.ofText,
    isNullText_withSign hstarts, boolText?_withSign hstarts, hint, Construction.ofOption]

theorem implicit?_of_float {x : Number} (hint : int? (withSign neg body) = none)
    (hfloat : float? (withSign neg body) = some x) :
    implicit? (.leaf (.text (String.ofList (withSign neg body))))
      = some (.float, .value (.leaf (.number x))) := by
  simp [implicit?, CoreType.implicit, firstTaking, CoreType.construct, CoreType.ofText,
    isNullText_withSign hstarts, boolText?_withSign hstarts, hint, hfloat, Construction.ofOption]

theorem int?_withSign (hnumeric : body.all isNumeric = true) (hzero : body ≠ ['0']) :
    int? (withSign neg body) = (wholeNumeral? 10 body).bind fun n =>
      if (Number.ofRatio neg n 1).isFinite then some (Number.ofRatio neg n 1) else none := by
  unfold int?
  rw [signed_withSign hstarts]
  simp only [hzero, if_false, magnitude?_of_isNumeric hnumeric]

theorem float?_withSign : float? (withSign neg body)
    = (Number.ofNumeral? neg body).filter Number.isFinite := by
  have hstarts' : startsWith (fun c => c.isDigit || c = '-') body = true :=
    startsWith_of_isDigit hstarts (by decide)
  unfold float?
  rw [signed_withSign hstarts]
  simp only
  rw [contains_eq_false hstarts' (by decide),
    contains_eq_false (startsNumeral_withSign hstarts neg) (by decide), startsDigit, hstarts]
  rfl

end Signed

/-- A text that a digit begins, maybe after a minus sign, and that is resolved as a number. -/
structure Numeric (text : List Char) (x : Number) : Prop where
  body : ∃ neg body, text = withSign neg body ∧ startsWith Char.isDigit body = true
    ∧ body.all isNumeric = true
  resolves : ∃ t, t.tag ≠ CoreType.merge.tag
    ∧ implicit? (.leaf (.text (String.ofList text))) = some (t, .value (.leaf (.number x)))

theorem numeric_magnitude {body : List Char} {x : Bool → Number} (h : MagnitudeText body x)
    (neg : Bool) (hfinite : (x neg).isFinite = true) : Numeric (withSign neg body) (x neg) := by
  cases h with
  | integer hne hdigits hpos hx =>
    have hstarts : startsWith Char.isDigit body = true := by
      simpa using Number.startsWith_isDigit_append hne hdigits []
    have hnumeric := Number.all_isNumeric_of_isDigit hdigits
    have hzero : body ≠ ['0'] := by
      rintro rfl
      exact absurd hpos (by decide)
    have hint : int? (withSign neg body) = some (x neg) := by
      rw [int?_withSign hstarts neg hnumeric hzero, wholeNumeral?_of_isDigit hne hdigits,
        Option.bind_some, hx, if_pos hfinite]
    exact ⟨⟨neg, body, rfl, hstarts, hnumeric⟩, .int, by decide,
      implicit?_of_int hstarts neg hint⟩
  | decimal h hx =>
    obtain ⟨hstarts, hnumeric, ⟨c, hc, hmark⟩, hvalue⟩ := h
    have hzero : body ≠ ['0'] := by
      rintro rfl
      rw [List.mem_singleton] at hc
      subst hc
      exact absurd hmark (by decide)
    have hint : int? (withSign neg body) = none := by
      rw [int?_withSign hstarts neg hnumeric hzero, wholeNumeral?_eq_none hc hmark]
      rfl
    have hfloat : float? (withSign neg body) = some (x neg) := by
      rw [float?_withSign hstarts, Number.ofNumeral?, hvalue, Option.map_some]
      simp only
      rw [hx, Option.filter_some, if_pos hfinite]
    exact ⟨⟨neg, body, rfl, hstarts, hnumeric⟩, .float, by decide,
      implicit?_of_float hstarts neg hint hfloat⟩

theorem Numeric.inline {text : List Char} {x : Number} (h : Numeric text x) :
    Inline text (.leaf (.number x)) := by
  obtain ⟨⟨neg, body, rfl, hstarts, hnumeric⟩, t, ht, himplicit⟩ := h
  exact inline_implicit (plainLine_withSign hstarts neg hnumeric)
    (opensContent_withSign hstarts neg) ht himplicit

theorem text_whole_eq (n : ℤ) :
    Number.text (.whole n) = withSign (n < 0) (Number.magnitudeText n.natAbs 0) := by
  by_cases h : n < 0 <;> simp [Number.text, withSign, h]

theorem numeric_whole {n : ℤ} (h : (Number.whole n).Representable) :
    Numeric (Number.text (.whole n)) (.whole n) := by
  by_cases hzero : n = 0
  · subst hzero
    exact ⟨⟨false, ['0'], rfl, rfl, rfl⟩, .int, by decide, rfl⟩
  · obtain ⟨htop, hfits⟩ := h
    simp only [Number.twoPow_eq _] at hfits
    have hmagnitude : Number.Magnitude n.natAbs 0 :=
      ⟨Int.natAbs_pos.mpr hzero, by decide, .inr ⟨rfl, htop, hfits⟩⟩
    have hsigned : Number.reduced (n < 0) n.natAbs 0 = .whole n := by
      unfold Number.reduced Number.signed
      congr 1
      split_ifs with hneg
      · rw [decide_eq_true_eq] at hneg
        omega
      · rw [decide_eq_true_eq] at hneg
        omega
    have := numeric_magnitude (Number.magnitudeText_spec hmagnitude) (n < 0)
      (Number.isFinite_reduced _ _ _)
    rw [hsigned, ← text_whole_eq] at this
    exact this

/-- After its first digits a magnitude has no sign. -/
theorem startsWith_minus_of_magnitude {body front back : List Char} {x : Bool → Number}
    (h : MagnitudeText body x) (hspan : body.span Char.isDigit = (front, back)) :
    startsWith (· = '-') back = false := by
  cases h with
  | integer hne hdigits hpos hx =>
    have hall : (body ++ []).span Char.isDigit = (body, []) :=
      span_append_of_startsWith hdigits rfl
    rw [List.append_nil, hspan, Prod.mk.injEq] at hall
    rw [hall.2]
    rfl
  | decimal h hx =>
    have hvalue := h.value
    by_contra hcon
    cases back with
    | nil => simp [startsWith] at hcon
    | cons c cs =>
      obtain rfl : c = '-' := by simpa [startsWith] using hcon
      rw [decimalNumeral?, hspan] at hvalue
      simp [exponentPart?] at hvalue

theorem numberText_fraction (neg : Bool) {m k : Nat} {x : Bool → Number}
    (h : MagnitudeText (Number.magnitudeText m k) x) :
    numberText (.fraction neg m k) = withSign neg (pointed (Number.magnitudeText m k)) := by
  obtain ⟨front, back, hspan, hbody, hfront, hback⟩ :=
    Number.span_isDigit (Number.magnitudeText m k)
  have hminus := startsWith_minus_of_magnitude h hspan
  have htext : Number.text (.fraction neg m k) = withSign neg front ++ back := by
    cases neg
    · exact hbody
    · exact congrArg _ hbody
  have hrun : (withSign neg front).all (fun c => c = '-' || c.isDigit) = true := by
    have hall : front.all (fun c => c = '-' || c.isDigit) = true := by
      rw [List.all_eq_true] at hfront ⊢
      intro c hc
      simp [hfront c hc]
    cases neg
    · exact hall
    · exact hall
  have hstop : startsWith (fun c => c = '-' || c.isDigit) back = false := by
    cases back with
    | nil => rfl
    | cons c cs =>
      simp only [startsWith] at hback hminus ⊢
      rw [hback, hminus]
      rfl
  unfold numberText pointed
  simp only
  rw [htext, span_append_of_startsWith hrun hstop, hspan]
  cases neg
  · rfl
  · cases back with
    | nil => rfl
    | cons c cs =>
      by_cases hc : c = 'e'
      · subst hc
        rfl
      · simp [withSign, hc]

section Fraction

variable {neg : Bool} {m k : Nat} (h : (Number.fraction neg m k).Representable)
include h

theorem magnitudeText_fraction :
    MagnitudeText (Number.magnitudeText m k) fun neg => Number.reduced neg m k := by
  obtain ⟨hodd, hm, hk, hlow⟩ := h
  rw [Number.twoPow_eq] at hm
  exact Number.magnitudeText_spec ⟨by omega, hlow, .inl hm⟩

theorem reduced_fraction : Number.reduced neg m k = .fraction neg m k := by
  obtain ⟨hodd, -, hk, -⟩ := h
  obtain ⟨k, rfl⟩ : ∃ j, k = j + 1 := ⟨k - 1, by omega⟩
  rw [Number.reduced, if_neg (by omega)]

theorem numeric_fraction : Numeric (Number.text (.fraction neg m k)) (.fraction neg m k) := by
  have htext : Number.text (.fraction neg m k) = withSign neg (Number.magnitudeText m k) := rfl
  rw [htext, ← reduced_fraction h]
  exact numeric_magnitude (magnitudeText_fraction h) neg (Number.isFinite_reduced neg m k)

theorem numeric_pointed : Numeric (numberText (.fraction neg m k)) (.fraction neg m k) := by
  have htext := magnitudeText_fraction h
  rw [numberText_fraction neg htext, ← reduced_fraction h]
  exact numeric_magnitude htext.pointed neg (Number.isFinite_reduced neg m k)

end Fraction

/-- The text of a finite number is resolved as the number, except that the zero with a minus sign is
written without it. -/
theorem numeric_text {x : Number} (h : x.Representable) (hfinite : x.isFinite = true)
    (hzero : x ≠ .negZero) : Numeric x.text x := by
  cases x with
  | whole n => exact numeric_whole h
  | fraction neg m k => exact numeric_fraction h
  | negZero => exact absurd rfl hzero
  | infinity neg => cases hfinite
  | nan => cases hfinite

theorem inline_number {x : Number} (h : x.Representable) :
    Inline (numberText x) (.leaf (.number x)) := by
  cases x with
  | whole n => exact (numeric_whole h).inline
  | fraction neg m k => exact (numeric_pointed h).inline
  | negZero =>
    exact inline_implicit (t := .float) ⟨fun rest => rfl, rfl, rfl, rfl⟩ rfl (by decide) rfl
  | infinity neg =>
    cases neg
    · exact inline_implicit (t := .float) ⟨fun rest => rfl, rfl, rfl, rfl⟩ rfl (by decide) rfl
    · exact inline_implicit (t := .float) ⟨fun rest => rfl, rfl, rfl, rfl⟩ rfl (by decide) rfl
  | nan =>
    exact inline_implicit (t := .float) ⟨fun rest => rfl, rfl, rfl, rfl⟩ rfl (by decide) rfl

end ParamForm.Yaml
