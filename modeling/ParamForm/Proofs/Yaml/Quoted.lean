import ParamForm.Proofs.Number.Digits
import ParamForm.Proofs.Yaml.Plain
import ParamForm.Yaml.Quoted

/-!
# Quoted scalars read back

A text in single quotes, each quote of it written twice, and a text in double quotes, with escapes
for what is not written as it is, are read as the text (`quoted?_single`, `Quoting.quoted?`).
-/

namespace ParamForm.Yaml

theorem isQuotable_of_isWritable {c : Char} (h : isWritable c = true) : isQuotable c = true := by
  simp only [isWritable, Bool.or_eq_true, Bool.and_eq_true, decide_eq_true_eq] at h
  simp only [isQuotable, Bool.or_eq_true, decide_eq_true_eq]
  omega

theorem checkQuotable_of_isWritable {cs : List Char} (h : cs.all isWritable = true) (c : Cursor) :
    checkQuotable cs c = .ok () := by
  rw [checkQuotable, if_pos (all_of_imp (fun _ => isQuotable_of_isWritable) h)]

/-- A text with each quote in it written twice. -/
def doubledQuotes (cs : List Char) : List Char :=
  cs.flatMap fun c => if c = '\x27' then [c, c] else [c]

theorem doubledQuotes_append (as bs : List Char) :
    doubledQuotes (as ++ bs) = doubledQuotes as ++ doubledQuotes bs :=
  List.flatMap_append

theorem doubledQuotes_of_all {cs : List Char} (h : cs.all (· ≠ '\x27') = true) :
    doubledQuotes cs = cs := by
  induction cs with
  | nil => rfl
  | cons c cs ih =>
    rw [List.all_cons, Bool.and_eq_true] at h
    have hc : c ≠ '\x27' := by simpa using h.1
    have := ih h.2
    rw [doubledQuotes] at this ⊢
    rw [List.flatMap_cons, this, if_neg hc]
    rfl

theorem length_le_doubledQuotes (cs : List Char) : cs.length ≤ (doubledQuotes cs).length := by
  induction cs with
  | nil => exact Nat.le_refl _
  | cons c cs ih =>
    rw [doubledQuotes] at ih ⊢
    rw [List.flatMap_cons, List.length_append, List.length_cons]
    split <;> simp only [List.length_cons, List.length_nil] <;> omega

theorem mem_doubledQuotes {cs : List Char} {c : Char} (h : c ∈ doubledQuotes cs) : c ∈ cs := by
  rw [doubledQuotes, List.mem_flatMap] at h
  obtain ⟨d, hd, hc⟩ := h
  have : c = d := by
    split at hc <;> simpa using hc
  rwa [this]

/-- The parts of a text between its quotes are read one after another. -/
theorem singleParts_doubledQuotes {rest : List Char}
    (hrest : startsWith (· = '\x27') rest = false) :
    ∀ (parts : Nat) (cs : List Char) (c : Cursor), cs.all isWritable = true →
      cs.length < parts → c.lineStart < c.position →
      c.rest = doubledQuotes cs ++ '\x27' :: rest →
      singleParts c parts = .ok (cs, c.past (doubledQuotes cs ++ ['\x27']) rest)
  | 0, _, _, _, hparts, _, _ => absurd hparts (Nat.not_lt_zero _)
  | parts + 1, cs, c, hw, hparts, hpos, hc => by
    set p : Char → Bool := fun ch => ch ≠ '\x27' && !isBreak ch with hp
    set run := cs.takeWhile (· ≠ '\x27') with hrun
    have hsplit : run ++ cs.dropWhile (· ≠ '\x27') = cs := List.takeWhile_append_dropWhile
    have hwrun : run.all isWritable = true := by
      rw [← hsplit, List.all_append, Bool.and_eq_true] at hw
      exact hw.1
    have hquotes : run.all (· ≠ '\x27') = true := List.all_takeWhile
    have hallp : run.all p = true := by
      rw [List.all_eq_true] at hwrun hquotes ⊢
      intro ch hch
      rw [hp, Bool.and_eq_true, isBreak_of_isWritable (hwrun ch hch)]
      exact ⟨hquotes ch hch, rfl⟩
    have hmark := Cursor.atMark_eq_false hpos
    have hquotable := checkQuotable_of_isWritable hwrun
    cases hd : cs.dropWhile (· ≠ '\x27') with
    | nil =>
      rw [hd, List.append_nil] at hsplit
      have hspan : c.rest.span p = (run, '\x27' :: rest) := by
        rw [hc, ← hsplit, doubledQuotes_of_all hquotes]
        exact span_append_of_startsWith hallp (by simp [startsWith, hp])
      rw [← hsplit, doubledQuotes_of_all hquotes]
      simp only [singleParts, hmark, ← hp, hspan, hquotable, bind, Except.bind]
      cases rest with
      | nil => simp
      | cons ch more =>
        have : ch ≠ '\x27' := by simpa [startsWith] using hrest
        simp [this]
    | cons q tail =>
      have hq : q = '\x27' := by
        have := List.head?_dropWhile_not (p := fun ch => decide (ch ≠ '\x27')) cs
        rw [hd] at this
        simpa using this
      subst hq
      rw [hd] at hsplit
      have hwtail : tail.all isWritable = true := by
        rw [← hsplit, List.all_append, List.all_cons] at hw
        simp only [Bool.and_eq_true] at hw
        exact hw.2.2
      have hlen : tail.length < parts := by
        have := congrArg List.length hsplit
        simp only [List.length_append, List.length_cons] at this
        omega
      have hquoted : doubledQuotes cs = run ++ '\x27' :: '\x27' :: doubledQuotes tail := by
        rw [← hsplit, doubledQuotes_append, doubledQuotes_of_all hquotes]
        rfl
      have hspan : c.rest.span p
          = (run, '\x27' :: '\x27' :: (doubledQuotes tail ++ '\x27' :: rest)) := by
        rw [hc, hquoted, List.append_assoc]
        exact span_append_of_startsWith hallp (by simp [startsWith, hp])
      have ih := singleParts_doubledQuotes hrest parts tail
        (c.past (run ++ ['\x27', '\x27']) (doubledQuotes tail ++ '\x27' :: rest)) hwtail hlen
        (by simp only [Cursor.lineStart_past, Cursor.position_past]; omega) rfl
      simp only [singleParts, hmark, ← hp, hspan, hquotable, bind, Except.bind]
      simp [ih, hquoted, hsplit]

/-- A text in single quotes is read as itself. -/
theorem quoted?_single {cs rest : List Char} {c : Cursor} (hw : cs.all isWritable = true)
    (hpos : c.lineStart ≤ c.position) (hrest : startsWith (· = '\x27') rest = false)
    (hc : c.rest = '\x27' :: (doubledQuotes cs ++ '\x27' :: rest)) :
    quoted? c
      = .ok (some (cs, c.past ('\x27' :: (doubledQuotes cs ++ ['\x27'])) rest)) := by
  have hnext := Cursor.next_eq hc
  have hlen : cs.length < c.rest.length + 1 := by
    have := length_le_doubledQuotes cs
    simp only [hc, List.length_cons, List.length_append]
    omega
  have hparts := singleParts_doubledQuotes hrest (c.rest.length + 1) cs c.next hw hlen
    (by
      rw [hnext]
      simp only [Cursor.lineStart_past, Cursor.position_past, Text.width_cons]
      have := Text.charWidth_pos '\x27'
      omega)
    (by rw [hnext]; rfl)
  obtain ⟨tail, htail⟩ : ∃ tail, c.rest = '\x27' :: tail := ⟨_, hc⟩
  simp only [quoted?, htail] at hparts ⊢
  rw [hparts, hnext]
  simp [Except.map]

/-- Hexadecimal digits are read up to their end. -/
theorem hexDigits_append (rest : List Char) :
    ∀ (ds : List Char) (code : Nat) (c : Cursor), ds.all (fun d => (digitValue? d).isSome) = true →
      c.rest = ds ++ rest →
      hexDigits code c ds.length = .ok (digitsValue 16 code ds, c.past ds rest)
  | [], code, c, _, hc => by
    rw [List.nil_append] at hc
    rw [Cursor.past_nil hc]
    rfl
  | d :: ds, code, c, hall, hc => by
    rw [List.all_cons, Bool.and_eq_true] at hall
    obtain ⟨n, hn⟩ := Option.isSome_iff_exists.mp hall.1
    have hnext := Cursor.next_eq hc
    have ih := hexDigits_append rest ds (code * 16 + n) (c.past [d] (ds ++ rest)) hall.2 rfl
    rw [List.length_cons, hexDigits]
    simp only [hc, List.cons_append, List.head?_cons, Option.bind_some, hn]
    rw [hnext]
    simpa [digitsValue_cons, hn] using ih

theorem all_digitValue?_hexText (width n : Nat) :
    (hexText width n).all (fun d => (digitValue? d).isSome) = true := by
  have hzero : (digitValue? '0').isSome = true := by decide
  have hdigits : ∀ n, ∀ d ∈ (Nat.toDigits 16 n).map Char.toUpper,
      (digitValue? d).isSome = true := by
    intro n
    induction n using Nat.strongRecOn with
    | ind n ih =>
      rw [Nat.toDigits_eq_if (by decide)]
      split_ifs with h
      · simp [digitValue?_upper_digitChar h]
      · intro d hd
        rw [List.map_append, List.mem_append] at hd
        rcases hd with hd | hd
        · exact ih (n / 16) (by omega) d hd
        · simp only [List.map_cons, List.map_nil, List.mem_singleton] at hd
          rw [hd, digitValue?_upper_digitChar (Nat.mod_lt n (by decide))]
          rfl
  rw [hexText, List.all_append, Bool.and_eq_true, List.all_eq_true, List.all_eq_true]
  refine ⟨fun d hd => ?_, hdigits n⟩
  rw [List.eq_of_mem_replicate hd]
  exact hzero

theorem digitsValue_hexText (width n : Nat) : digitsValue 16 0 (hexText width n) = n := by
  rw [hexText, digitsValue_zeros_append]
  exact digitsValue_map_toDigits (by decide) (fun _ h => digitValue?_upper_digitChar h) n

theorem length_hexText {width n : Nat} (hw : 0 < width) (hn : n < 16 ^ width) :
    (hexText width n).length = width := by
  have := (Nat.length_toDigits_le_iff (b := 16) (n := n) (by decide) hw).mpr hn
  simp only [hexText, List.length_append, List.length_replicate, List.length_map]
  omega

/-- An escape by number reads back as its character, which is one unit. -/
theorem escape_number {c kind : Char} {ds rest : List Char} {d : Cursor}
    (hbreak : isBreak kind = false) (hletter : letterEscape? kind = none)
    (hkind : numberEscape? kind = some ds.length)
    (hdigits : ds.all (fun d => (digitValue? d).isSome) = true)
    (hvalue : digitsValue 16 0 ds = c.toNat) (hunit : c.toNat < 0x10000)
    (hd : d.rest = kind :: (ds ++ rest)) :
    escape d = .ok (Text.charUnits c, d.past (kind :: ds) rest) := by
  have hnext := Cursor.next_eq hd
  have hread := hexDigits_append rest ds 0 (d.past [kind] (ds ++ rest)) hdigits rfl
  have hcode : codeUnits c.toNat = Text.charUnits c := by
    rw [codeUnits, if_pos (.inl (by omega)), Text.charUnits, if_pos hunit,
      Nat.mod_eq_of_lt hunit]
  simp only [escape, hd, hbreak, hletter, hkind, hnext, hread, hvalue]
  simp [bind, Except.bind, hcode]

theorem escape_hexText {c kind : Char} {width : Nat} {rest : List Char} {d : Cursor}
    (hbreak : isBreak kind = false) (hletter : letterEscape? kind = none)
    (hkind : numberEscape? kind = some width) (hwidth : 0 < width) (hc : c.toNat < 16 ^ width)
    (hunit : c.toNat < 0x10000) (hd : d.rest = kind :: (hexText width c.toNat ++ rest)) :
    escape d = .ok (Text.charUnits c, d.past (kind :: hexText width c.toNat) rest) := by
  rw [← length_hexText hwidth hc] at hkind
  exact escape_number hbreak hletter hkind (all_digitValue?_hexText width _)
    (digitsValue_hexText width _) hunit hd

/-- Every character that is not written as it is has an escape that reads back as it. Those above
the basic plane are written as they are. -/
theorem escape_escaped {c : Char} {e : List Char} (rest : List Char) {d : Cursor}
    (he : escaped c = '\\' :: e) (hd : d.rest = e ++ rest) :
    escape d = .ok (Text.charUnits c, d.past e rest) := by
  unfold escaped at he
  split at he
  case h_16 =>
    simp only [] at he
    split_ifs at he with h1 h2 h3
    · simp only [List.cons.injEq, List.nil_eq] at he
      obtain ⟨rfl, -⟩ := he
      exact absurd rfl ‹¬ '\\' = '\\'›
    · simp only [List.cons.injEq, true_and] at he
      subst he
      exact escape_hexText (by decide) (by decide) rfl (by decide) (by omega) (by omega) hd
    · simp only [List.cons.injEq, true_and] at he
      subst he
      exact escape_hexText (by decide) (by decide) rfl (by decide) (by omega) (by omega) hd
    · simp only [isWritable, Bool.or_eq_true, decide_eq_true_eq, not_or] at h1
      omega
  all_goals
    simp only [List.cons.injEq, true_and] at he
    subst he
    have hnext := Cursor.next_eq hd
    simp [escape, hd, isBreak, letterEscape?, hnext]

theorem escaped_eq_or (c : Char) :
    (escaped c = [c] ∧ isWritable c = true ∧ c ≠ '"' ∧ c ≠ '\\') ∨ ∃ e, escaped c = '\\' :: e := by
  unfold escaped
  split
  case h_16 h10 h11 _ _ _ _ =>
    simp only []
    split_ifs with h1 h2 h3
    · exact .inl ⟨rfl, h1, by assumption, by assumption⟩
    all_goals exact .inr ⟨_, rfl⟩
  all_goals exact .inr ⟨_, rfl⟩

theorem noNull_escaped (c : Char) : '\x00' ∉ escaped c := by
  have hhex (width n : Nat) : '\x00' ∉ hexText width n := fun h => by
    have := List.all_eq_true.mp (all_digitValue?_hexText width n) _ h
    exact absurd this (by decide)
  unfold escaped
  split
  case h_16 =>
    simp only []
    split_ifs with h1 h2 h3
    · rintro h
      obtain rfl := List.mem_singleton.mp h
      exact absurd h1 (by decide)
    all_goals
      simp only [List.mem_cons, hhex, or_false]
      decide
  all_goals decide

/-- A way to write the characters of a text in double quotes: each as it is, where that is no mark
and may stand inside quotes, or as an escape that reads back as it. -/
structure Quoting (write : Char → List Char) : Prop where
  plain : ∀ c, write c = [c] → isQuotable c = true ∧ isBreak c = false ∧ c ≠ '"' ∧ c ≠ '\\'
  escapes : ∀ c, write c ≠ [c] → ∃ e, write c = '\\' :: e ∧ ∀ (rest : List Char) (d : Cursor),
    d.rest = e ++ rest → escape d = .ok (Text.charUnits c, d.past e rest)
  noNull : ∀ c, '\x00' ∉ write c

theorem quoting_escaped : Quoting escaped where
  plain c hc := by
    rcases escaped_eq_or c with ⟨-, hw, hquote, hslash⟩ | ⟨e, he⟩
    · exact ⟨isQuotable_of_isWritable hw, isBreak_of_isWritable hw, hquote, hslash⟩
    · rw [hc, List.cons.injEq] at he
      obtain ⟨rfl, -⟩ := he
      exact absurd hc (by decide)
  escapes c hc := by
    obtain ⟨e, he⟩ := (escaped_eq_or c).resolve_left fun h => hc h.1
    exact ⟨e, he, fun rest _ hd => escape_escaped rest he hd⟩
  noNull := noNull_escaped

namespace Quoting

variable {write : Char → List Char}

theorem flatMap_of_all {cs : List Char} (h : cs.all (fun c => write c = [c]) = true) :
    cs.flatMap write = cs := by
  induction cs with
  | nil => rfl
  | cons c cs ih =>
    rw [List.all_cons, Bool.and_eq_true, decide_eq_true_eq] at h
    rw [List.flatMap_cons, h.1, ih h.2]
    rfl

variable (h : Quoting write)
include h

theorem noNull_flatMap (cs : List Char) : '\x00' ∉ cs.flatMap write := by
  simp [h.noNull]

theorem length_le_flatMap (cs : List Char) : cs.length ≤ (cs.flatMap write).length := by
  induction cs with
  | nil => exact Nat.le_refl _
  | cons c cs ih =>
    have hc : 1 ≤ (write c).length := by
      by_cases hplain : write c = [c]
      · rw [hplain]
        exact Nat.le_refl _
      · obtain ⟨e, he, -⟩ := h.escapes c hplain
        rw [he, List.length_cons]
        omega
    rw [List.flatMap_cons, List.length_append, List.length_cons]
    omega

/-- Runs of characters that are written as they are, and the escapes between them, are read one
after another. -/
theorem doubleParts {rest : List Char} :
    ∀ (parts : Nat) (cs : List Char) (c : Cursor), cs.length < parts → c.lineStart < c.position →
      c.rest = cs.flatMap write ++ '"' :: rest →
      doubleParts c parts = .ok (Text.units cs, c.past (cs.flatMap write ++ ['"']) rest)
  | 0, _, _, hparts, _, _ => absurd hparts (Nat.not_lt_zero _)
  | parts + 1, cs, c, hparts, hpos, hc => by
    set p : Char → Bool := fun ch => ch ≠ '"' && ch ≠ '\\' && !isBreak ch with hp
    set plain : Char → Bool := fun ch => write ch = [ch] with hplain
    set run := cs.takeWhile plain with hrun
    have hsplit : run ++ cs.dropWhile plain = cs := List.takeWhile_append_dropWhile
    have hrunplain : run.all plain = true := List.all_takeWhile
    have hchar : ∀ ch ∈ run, isQuotable ch = true ∧ isBreak ch = false ∧ ch ≠ '"' ∧ ch ≠ '\\' :=
      fun ch hch => h.plain ch (by simpa [hplain] using List.all_eq_true.mp hrunplain ch hch)
    have hallp : run.all p = true := by
      rw [List.all_eq_true]
      intro ch hch
      simp [hp, hchar ch hch]
    have hrunwritten : run.flatMap write = run := flatMap_of_all hrunplain
    have hmark := Cursor.atMark_eq_false hpos
    have hquotable (d : Cursor) : checkQuotable run d = .ok () := by
      rw [checkQuotable, if_pos (List.all_eq_true.mpr fun ch hch => (hchar ch hch).1)]
    cases hd : cs.dropWhile plain with
    | nil =>
      rw [hd, List.append_nil] at hsplit
      have hspan : c.rest.span p = (run, '"' :: rest) := by
        rw [hc, ← hsplit, hrunwritten]
        exact span_append_of_startsWith hallp (by simp [startsWith, hp])
      rw [← hsplit, hrunwritten]
      simp only [Yaml.doubleParts, hmark, ← hp, hspan, hquotable, bind, Except.bind]
      simp
    | cons ch tail =>
      have hne : write ch ≠ [ch] := by
        have := List.head?_dropWhile_not plain cs
        rw [hd] at this
        simpa [hplain] using this
      obtain ⟨e, he, hescapes⟩ := h.escapes ch hne
      rw [hd] at hsplit
      have hlen : tail.length < parts := by
        have := congrArg List.length hsplit
        simp only [List.length_append, List.length_cons] at this
        omega
      have hwritten : cs.flatMap write = run ++ '\\' :: (e ++ tail.flatMap write) := by
        rw [← hsplit, List.flatMap_append, hrunwritten, List.flatMap_cons, he]
        rfl
      have hspan : c.rest.span p
          = (run, '\\' :: (e ++ (tail.flatMap write ++ '"' :: rest))) := by
        rw [hc, hwritten, List.append_assoc, List.cons_append, List.append_assoc]
        exact span_append_of_startsWith hallp (by simp [startsWith, hp])
      have hescape := hescapes (tail.flatMap write ++ '"' :: rest)
        (c.past (run ++ ['\\']) (e ++ (tail.flatMap write ++ '"' :: rest))) rfl
      have ih := doubleParts parts tail
        (c.past (run ++ '\\' :: e) (tail.flatMap write ++ '"' :: rest)) hlen
        (by simp only [Cursor.lineStart_past, Cursor.position_past]; omega) rfl
      simp only [Yaml.doubleParts, hmark, ← hp, hspan, hquotable, bind, Except.bind]
      simp [hescape, ih, Text.units, ← hsplit, hrunwritten, he]

/-- A text in double quotes is read as itself. -/
theorem quoted? {cs rest : List Char} {c : Cursor} (hpos : c.lineStart ≤ c.position)
    (hc : c.rest = '"' :: (cs.flatMap write ++ '"' :: rest)) :
    quoted? c = .ok (some (cs, c.past ('"' :: (cs.flatMap write ++ ['"'])) rest)) := by
  have hnext := Cursor.next_eq hc
  have hlen : cs.length < c.rest.length + 1 := by
    have := h.length_le_flatMap cs
    simp only [hc, List.length_cons, List.length_append]
    omega
  have hparts := h.doubleParts (c.rest.length + 1) cs c.next hlen
    (by
      rw [hnext]
      simp only [Cursor.lineStart_past, Cursor.position_past, Text.width_cons]
      have := Text.charWidth_pos '"'
      omega)
    (by rw [hnext]; rfl)
  obtain ⟨tail, htail⟩ : ∃ tail, c.rest = '"' :: tail := ⟨_, hc⟩
  simp only [Yaml.quoted?, htail] at hparts ⊢
  rw [hparts, hnext]
  simp [Except.map, Text.ofUnits_units]

end Quoting

end ParamForm.Yaml
