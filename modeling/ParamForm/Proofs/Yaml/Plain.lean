import ParamForm.Proofs.Yaml.Cursor
import ParamForm.Yaml.Writer

/-!
# Plain scalars read back

A text on one line that the writer leaves without quotes is read up to its end (`plain?_append`):
inside it nothing ends a plain scalar, and what follows it on the page does (`Follows`).
-/

namespace ParamForm.Yaml

/-- What stands after a scalar on the page: the colon of a pair, or a line end and a next line that
is indented by less than `floor`. -/
inductive Follows (floor : Nat) : List Char → Prop
  | colon {rest : List Char} (h : startsWith isSpacing rest = true) : Follows floor (':' :: rest)
  | line {k : Nat} {content : List Char} (hk : k < floor) (hc : startsToken content = true) :
      Follows floor ('\n' :: (List.replicate k ' ' ++ content))

theorem isPrintable_of_isWritable {c : Char} (h : isWritable c = true) : isPrintable c = true := by
  simp only [isWritable, Bool.or_eq_true, Bool.and_eq_true, decide_eq_true_eq] at h
  simp only [isPrintable, Bool.not_eq_true', Bool.or_eq_false_iff, Bool.and_eq_false_iff,
    decide_eq_false_iff_not]
  omega

theorem isBreak_of_isWritable {c : Char} (h : isWritable c = true) : isBreak c = false := by
  by_cases hn : c = '\n'
  · subst hn
    exact absurd h (by decide)
  · by_cases hr : c = '\r'
    · subst hr
      exact absurd h (by decide)
    · simp [isBreak, hn, hr]

theorem all_of_imp {p q : Char → Bool} (himp : ∀ c, p c = true → q c = true) {cs : List Char}
    (h : cs.all p = true) : cs.all q = true := by
  rw [List.all_eq_true] at h ⊢
  exact fun c hc => himp c (h c hc)

theorem noNull_of_isWritable {cs : List Char} (h : cs.all isWritable = true) : '\x00' ∉ cs := by
  intro hmem
  have := List.all_eq_true.mp h _ hmem
  exact absurd this (by decide)

theorem checkPrintable_of_isWritable {cs : List Char} (h : cs.all isWritable = true) (c : Cursor) :
    checkPrintable cs c = .ok () := by
  rw [checkPrintable, if_pos (all_of_imp (fun _ => isPrintable_of_isWritable) h)]

/-- A text on one line that nothing in it ends as a plain scalar. -/
structure PlainLine (cs : List Char) : Prop where
  starts : ∀ rest, startsPlain false (cs ++ rest) = true
  writable : cs.all isWritable = true
  follow : allMayFollow none cs = true
  last : (cs.getLast?.map fun c => !isWhite c && c ≠ ':').getD false = true

theorem plainRun_eq_nil_of_follows {floor : Nat} {rest : List Char} (h : Follows floor rest)
    (blank : Bool) : plainRun false blank rest = [] := by
  cases h with
  | colon h => simp [plainRun, plainEnds, h]
  | line hk hc => simp [plainRun, plainEnds, isBreak]

/-- No character inside a plain text ends it: a colon is never followed by a blank and a number
sign never preceded by one. `before` is the character before the text. -/
theorem plainRun_append {floor : Nat} {rest : List Char} (hrest : Follows floor rest) :
    ∀ (cs : List Char) (before : Option Char), cs.all isWritable = true →
      allMayFollow before cs = true →
      (cs.getLast?.map fun c => !isWhite c && c ≠ ':').getD true = true →
      plainRun false ((before.map isWhite).getD true) (cs ++ rest) = cs
  | [], before, _, _, _ => plainRun_eq_nil_of_follows hrest _
  | c :: cs, before, hw, hf, hl => by
    rw [List.all_cons, Bool.and_eq_true] at hw
    rw [allMayFollow, Bool.and_eq_true] at hf
    have hbreak := isBreak_of_isWritable hw.1
    have hends : plainEnds false ((before.map isWhite).getD true) (c :: (cs ++ rest)) = false := by
      by_cases hcolon : c = ':'
      · subst hcolon
        cases cs with
        | nil => simp at hl
        | cons d ds =>
          rw [List.all_cons, Bool.and_eq_true] at hw
          rw [allMayFollow, Bool.and_eq_true] at hf
          have hd := isBreak_of_isWritable hw.2.1
          have hwhite : isWhite d = false := by
            have := hf.2.1
            by_cases hhash : d = '#'
            · subst hhash
              rfl
            · simpa [mayFollow, hhash] using this
          simp [plainEnds, startsWith, isSpacing, hd, hwhite]
      · by_cases hhash : c = '#'
        · subst hhash
          have := hf.1
          rcases before with _ | b
          · simp [mayFollow] at this
          · simp only [mayFollow, if_true, Option.map_some, Option.getD_some, Bool.and_eq_true,
              Bool.not_eq_true'] at this
            simp [plainEnds, this.2]
        · simp [plainEnds, hcolon, hhash, hbreak]
    have hl' : (cs.getLast?.map fun c => !isWhite c && c ≠ ':').getD true = true := by
      cases cs with
      | nil => rfl
      | cons d ds => simpa [List.getLast?_cons_cons] using hl
    have ih := plainRun_append hrest cs (some c) hw.2 hf.2 hl'
    rw [List.cons_append, plainRun, if_neg (by simp [hends])]
    simpa using ih

theorem PlainLine.ne_nil {cs : List Char} (h : PlainLine cs) : cs ≠ [] := by
  rintro rfl
  simpa using h.last

theorem PlainLine.run {cs rest : List Char} {floor : Nat} (h : PlainLine cs)
    (hrest : Follows floor rest) : plainRun false true (cs ++ rest) = cs := by
  refine plainRun_append hrest cs none h.writable h.follow ?_
  have := h.last
  cases hg : cs.getLast? with
  | none => rfl
  | some c => simpa [hg] using this

theorem PlainLine.trimmedEnd {cs : List Char} (h : PlainLine cs) : trimmedEnd cs = cs := by
  have hl := h.last
  rcases List.eq_nil_or_concat cs with rfl | ⟨front, c, rfl⟩
  · rfl
  · simp only [List.concat_eq_append, List.getLast?_concat, Option.map_some, Option.getD_some,
      Bool.and_eq_true, Bool.not_eq_true'] at hl
    simp [Yaml.trimmedEnd, hl.1]

theorem plainEnds_eq_false_of_run {inFlow : Bool} {cs : List Char}
    (h : plainRun inFlow true cs ≠ []) : plainEnds inFlow true cs = false := by
  cases cs with
  | nil => exact absurd rfl h
  | cons c cs =>
    by_contra hends
    rw [Bool.not_eq_false] at hends
    rw [plainRun, if_pos hends] at h
    exact h rfl

theorem plainLines_append {cs rest : List Char} {floor : Nat} {c : Cursor}
    (h : PlainLine cs) (hrest : Follows floor rest) (hc : c.rest = cs ++ rest)
    (htab : c.tab = none) (lines : Nat) :
    plainLines floor false c (lines + 1) = .ok (cs, c.past cs rest) := by
  have hrun : plainRun false true c.rest = cs := by rw [hc, h.run hrest]
  have hdrop : c.rest.drop cs.length = rest := by rw [hc, List.drop_left]
  have hprint := checkPrintable_of_isWritable h.writable
  simp only [plainLines, hrun, hdrop, h.trimmedEnd]
  cases hrest with
  | colon hcolon => simp [startsWith, isBreak, hprint, bind, Except.bind]
  | @line k content hk hcontent =>
    have hsep := Cursor.separation_below (k := k)
      (c := c.past cs ('\n' :: (List.replicate k ' ' ++ content))) false rfl hcontent
    have hshallow : ¬ floor ≤ ((c.past cs ('\n' :: (List.replicate k ' ' ++ content))).below k
        content).indent := Nat.not_le.mpr hk
    simp only [startsWith, isBreak, hsep, hprint, if_neg hshallow, bind, Except.bind]
    simp [Cursor.below, Cursor.past, htab]

/-- A plain text is read up to its end. -/
theorem plain?_append {cs rest : List Char} {floor : Nat} {c : Cursor} (h : PlainLine cs)
    (hrest : Follows floor rest) (hc : c.rest = cs ++ rest) (htab : c.tab = none)
    (hmark : c.atMark = false) :
    plain? floor false c = .ok (some (cs, c.past cs rest)) := by
  have hstarts : startsPlain false c.rest = true := by rw [hc]; exact h.starts rest
  have hgoes : plainEnds false true c.rest = false :=
    plainEnds_eq_false_of_run (by rw [hc, h.run hrest]; exact h.ne_nil)
  have hlines := plainLines_append h hrest hc htab c.rest.length
  simp [plain?, continuesPlain, hstarts, hgoes, hmark, hlines, Except.map]

end ParamForm.Yaml
