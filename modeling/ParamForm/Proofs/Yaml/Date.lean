import ParamForm.Proofs.Yaml.Announced.Year
import ParamForm.Proofs.Yaml.Numeral
import ParamForm.Proofs.Yaml.Stream

/-!
# Dates as documents

A text that is a date and nothing else is loaded as that point of time (`load_of_date?`). As lines
of a plain scalar at the root need no indentation, it takes in the line end that follows it, and is
no key for that reason (`plain?_root`).
-/

namespace ParamForm.Yaml

open Number (isNumeric)

/-- Digits that begin a date, and what follows their hyphen. -/
structure DateText (year rest : List Char) : Prop where
  ne_nil : year ≠ []
  digits : year.all Char.isDigit = true
  numeric : (year ++ '-' :: rest).all isNumeric = true

theorem exists_dateText {cs : List Char} {ms : Int} (h : date? cs = some ms) :
    ∃ year rest, DateText year rest ∧ cs = year ++ '-' :: rest := by
  obtain ⟨⟨_, cs₁⟩, hyear, h⟩ := Option.bind_eq_some_iff.mp h
  obtain ⟨cs₂, hfirst, h⟩ := Option.bind_eq_some_iff.mp h
  obtain ⟨⟨_, cs₃⟩, hmonth, h⟩ := Option.bind_eq_some_iff.mp h
  obtain ⟨cs₄, hsecond, h⟩ := Option.bind_eq_some_iff.mp h
  obtain ⟨⟨_, cs₅⟩, hday, h⟩ := Option.bind_eq_some_iff.mp h
  simp only at hfirst hsecond h
  split_ifs at h with hend
  obtain ⟨year, hlength, hdigits, rfl⟩ := exists_run_of_digits? hyear
  obtain rfl := eq_cons_of_after? hfirst
  obtain ⟨month, -, hmonthDigits, rfl⟩ := exists_run_of_digits? hmonth
  obtain rfl := eq_cons_of_after? hsecond
  obtain ⟨day, -, hdayDigits, rfl⟩ := exists_run_of_digits? hday
  obtain rfl := List.isEmpty_iff.mp hend
  refine ⟨year, _, ⟨?_, hdigits, ?_⟩, rfl⟩
  · rintro rfl
    cases hlength
  · have hhyphen : isNumeric '-' = true := by decide
    simp [List.all_append, Number.all_isNumeric_of_isDigit, hdigits, hmonthDigits, hdayDigits,
      hhyphen]

namespace DateText

variable {year rest : List Char} (h : DateText year rest)

include h

theorem startsDigit : startsWith Char.isDigit (year ++ '-' :: rest) = true :=
  Number.startsWith_isDigit_append h.ne_nil h.digits _

/-- No numeral has a hyphen after its first digits. -/
theorem implicit?_eq {ms : Int} (hdate : timestamp? (year ++ '-' :: rest) = some ms) :
    implicit? (.leaf (.text (String.ofList (year ++ '-' :: rest))))
      = some (.timestamp, .value (.leaf (.date ms))) := by
  have hstarts := h.startsDigit
  have hhyphen : '-' ∈ year ++ '-' :: rest := by simp
  have hzero : year ++ '-' :: rest ≠ ['0'] := by
    intro heq
    rw [heq] at hhyphen
    exact absurd hhyphen (by decide)
  have hnull := isNullText_withSign hstarts false
  have hbool := boolText?_withSign hstarts false
  have hint := int?_withSign hstarts false h.numeric hzero
  have hfloat := float?_withSign hstarts false
  have hspan : (year ++ '-' :: rest).span Char.isDigit = (year, '-' :: rest) :=
    span_append_of_startsWith h.digits rfl
  have hdecimal : decimalNumeral? (year ++ '-' :: rest) = none := by
    rw [decimalNumeral?, hspan]
    simp [exponentPart?]
  rw [wholeNumeral?_eq_none hhyphen (by decide)] at hint
  rw [Number.ofNumeral?, hdecimal] at hfloat
  simp only [withSign, Bool.false_eq_true, if_false, Option.bind_none, Option.map_none,
    Option.filter_none] at hnull hbool hint hfloat
  simp [implicit?, CoreType.implicit, firstTaking, CoreType.construct, CoreType.ofText, hnull,
    hbool, hint, hfloat, hdate, Construction.ofOption]

end DateText

section Root

variable {cs : List Char} (hline : PlainLine cs) {c : Cursor} (hc : c.rest = cs ++ ['\n'])
  (hready : c.Ready)

include hline hc hready

theorem plain?_root : plain? 0 false c = .ok (some (cs, (c.past cs ['\n']).below 0 [])) := by
  have hfollows : Follows 1 ['\n'] := @Follows.line 1 0 [] Nat.zero_lt_one rfl
  have hrun : plainRun false true c.rest = cs := by rw [hc, hline.run hfollows]
  have hdrop : c.rest.drop cs.length = ['\n'] := by rw [hc, List.drop_left]
  have hprint := checkPrintable_of_isWritable hline.writable
  have hsep : (c.past cs ['\n']).separation false = (1, (c.past cs ['\n']).below 0 []) :=
    Cursor.separation_below false rfl rfl
  have hstarts : startsPlain false c.rest = true := by
    rw [hc]
    exact hline.starts _
  have hgoes : plainEnds false true c.rest = false :=
    plainEnds_eq_false_of_run (by rw [hrun]; exact hline.ne_nil)
  have hstops : continuesPlain false ((c.past cs ['\n']).below 0 []) = false := rfl
  have hlines : plainLines 0 false c (c.rest.length + 1)
      = .ok (cs, (c.past cs ['\n']).below 0 []) := by
    simp only [plainLines, hrun, hdrop, hline.trimmedEnd, hsep, hprint, hstops]
    rfl
  simp [plain?, continuesPlain, hstarts, hgoes, hready.unmarked, hlines, Except.map]

variable (hopens : opensContent cs = true) {t : CoreType} {v : Linked}
  (himplicit : implicit? (.leaf (.text (String.ofList cs))) = some (t, .value v))

include hopens himplicit

/-- The scalar is tried as the first key of a block mapping, and is the root as no colon follows it
on its line. -/
theorem readInside_root :
    ∃ kind, readInside (Node.read 99) 0 .blockOut true c
      = .ok (⟨none, kind, v, true⟩, (c.past cs ['\n']).below 0 []) := by
  set d := (c.past cs ['\n']).below 0 [] with hd
  have hcontent : opensContent c.rest = true := by
    rw [hc]
    exact opensContent_append hopens _
  have hstarts : startsPlain false c.rest = true := by
    rw [hc]
    exact hline.starts _
  have hcontext : decide (Context.flowOut = .flowIn) = false := rfl
  obtain ⟨hflow, hleaf⟩ := leaf?_of_startsPlain hcontext hstarts (plain?_root hline hc hready)
    (Node.read 98)
  have hkey : Node.read 99 ⟨0 + 1, .flowOut, false, true⟩ c
      = .ok (⟨some t.tag, some .scalar, v, true⟩, d) := by
    rw [read_flow rfl hcontent]
    exact readInside_of_implicit hflow hleaf himplicit
  have hline : d.line ≠ c.line := Nat.succ_ne_self c.line
  exact ⟨_, readInside_of_single hcontent hready.tab .blockOut
    (blockMapping_single_of_line_ne hcontent hready.tab hkey rfl hline)⟩

end Root

theorem ready_of_startsDigit {cs : List Char} (hdigit : startsWith Char.isDigit cs = true) :
    Cursor.Ready { rest := cs } where
  tab := rfl
  started := Nat.le_refl 0
  unmarked := by
    have hmark := startsWith_of_isDigit hdigit (p := fun ch => !(ch = '-' || ch = '.')) (by decide)
    match cs, hmark with
    | [_], _ | [_, _], _ => rfl
    | a :: b :: c :: rest, hmark =>
      simp only [startsWith, Bool.not_eq_true'] at hmark
      simp [Cursor.atMark, startsMark, hmark]

theorem opensDocument_of_startsDigit {cs : List Char} (hdigit : startsWith Char.isDigit cs = true) :
    opensDocument cs = true := by
  have hfirst := startsWith_of_isDigit hdigit
    (p := fun ch => !isSpacing ch && ch ≠ '#' && ch ≠ '%' && ch ≠ '-') (by decide)
  cases cs with
  | nil => cases hfirst
  | cons ch cs =>
    simp only [startsWith, Bool.and_eq_true, decide_eq_true_eq, Bool.not_eq_true'] at hfirst
    obtain ⟨⟨⟨hspacing, hcomment⟩, hdirective⟩, hhyphen⟩ := hfirst
    simp [opensDocument, startsToken, startsWith, hspacing, hcomment, hdirective, hhyphen]

/-- A text without a line end that is a plain scalar and begins with a digit is loaded as what an
implicit type makes of it. -/
theorem load_of_implicit {cs : List Char} (hdigit : startsWith Char.isDigit cs = true)
    (hline : PlainLine cs) (hopens : opensContent cs = true) {t : CoreType} {v : Value}
    (himplicit : implicit? (.leaf (.text (String.ofList cs))) = some (t, .value (.ofValue v))) :
    load (String.ofList cs) = .ok (.tree v) := by
  obtain ⟨ch, more, rfl⟩ := List.exists_cons_of_ne_nil hline.ne_nil
  set text := ch :: more ++ ['\n'] with htext
  have hdigit' : startsWith Char.isDigit text = true := hdigit
  have hnormal : normalized (ch :: more) = text := by
    have hlast := List.getLast?_eq_some_getLast hline.ne_nil
    have hbreak := List.all_eq_true.mp hline.writable _ (List.getLast_mem hline.ne_nil)
    have hmark : ch ≠ '\uFEFF' := by
      rintro rfl
      cases hdigit
    exact normalized_of_not_break hlast (isBreak_of_isWritable hbreak) (by simp [startsWith, hmark])
  have hnull : '\x00' ∉ text := by
    have := noNull_of_isWritable hline.writable
    simpa [htext] using this
  have hlong : 1 < Text.width text := by
    have hfirst := Text.charWidth_pos ch
    have hlast := Text.charWidth_pos '\n'
    rw [htext, Text.width_append, Text.width_cons, Text.width_cons]
    omega
  obtain ⟨kind, hread⟩ := readInside_root hline rfl (ready_of_startsDigit hdigit') hopens himplicit
  rw [← read_root (startsNode_of_opensContent (opensContent_append hopens _))] at hread
  have hleads : Reads True (Leads (.ofValue v) 0 [] { rest := text })
      (Node.read maxDepth ⟨0, .blockOut, false, true⟩ { rest := text }) := by
    rw [hread]
    refine .ok ⟨rfl, rfl, ?_, ?_⟩
    · rw [Cursor.token_of_startsToken rfl]
      exact Cursor.atLine_below _ _ _
    · rw [Cursor.token_of_startsToken rfl]
      exact Nat.zero_lt_one
  have hopens := opensDocument_of_startsDigit hdigit'
  obtain ⟨w, hload, rfl⟩ := (load_of_reads hopens hnormal hnull hlong hleads).of_fits trivial
  exact hload

/-- A date is loaded as the point of time that it names. -/
theorem load_of_date? {cs : List Char} {ms : Int} (h : date? cs = some ms) :
    load (String.ofList cs) = .ok (.tree (.date ms)) := by
  obtain ⟨year, rest, htext, rfl⟩ := exists_dateText h
  have htimestamp : timestamp? (year ++ '-' :: rest) = some ms := by rw [timestamp?, h]; rfl
  have hline := plainLine_withSign htext.startsDigit false htext.numeric
  have hopens := opensContent_withSign htext.startsDigit false
  exact load_of_implicit htext.startsDigit hline hopens (htext.implicit?_eq htimestamp)

end ParamForm.Yaml
