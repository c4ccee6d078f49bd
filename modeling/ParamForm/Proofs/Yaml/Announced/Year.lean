import ParamForm.Proofs.Yaml.Ending.Document
import ParamForm.Proofs.Yaml.Linked

/-!
# Years in a text

A plain scalar is a point of time only if four digits and a hyphen after them stand in the text that
it is read from (`hasYear_of_plain`): its first word stands there, as only blanks and line ends are
changed between its words.
-/

namespace ParamForm.Yaml

/-- Whether four digits and a hyphen after them stand in a text. -/
def HasYear (cs : List Char) : Prop :=
  ∃ year, year.length = 4 ∧ year.all Char.isDigit = true ∧ year ++ ['-'] <:+: cs

/-- Whether a text without tags may hold a value at its root: no binary data, and a point of time
only after a year. -/
def Announced (text : List Char) : Value → Prop
  | .date _ => HasYear text
  | .bytes _ => False
  | _ => True

/-- Whether a text without tags may be read as a value with links. -/
def Linked.Announced (text : List Char) : Linked → Prop
  | .leaf v => Yaml.Announced text v
  | _ => True

theorem HasYear.of_infix {cs ds : List Char} (h : HasYear cs) (hinside : cs <:+: ds) :
    HasYear ds := by
  obtain ⟨year, hlength, hall, hyear⟩ := h
  exact ⟨year, hlength, hall, hyear.trans hinside⟩

/-- A year does not reach into the line end that is put after a text. -/
theorem HasYear.of_concat {cs : List Char} (h : HasYear (cs ++ ['\n'])) : HasYear cs := by
  obtain ⟨year, hlength, hall, before, after, heq⟩ := h
  rcases List.eq_nil_or_concat after with rfl | ⟨after, last, rfl⟩
  · rw [List.append_nil, ← List.append_assoc] at heq
    cases List.append_inj_right' heq rfl
  · rw [List.concat_eq_append, ← List.append_assoc] at heq
    exact ⟨year, hlength, hall, before, after, List.append_inj_left' heq rfl⟩

theorem hasYear_of_normalized {cs : List Char} (h : HasYear (normalized cs)) : HasYear cs := by
  have hended : HasYear (if (cs.getLast?.map isBreak).getD true then cs else cs ++ ['\n']) →
      HasYear cs := by
    split_ifs
    · exact id
    · exact .of_concat
  unfold normalized at h
  simp only at h
  split at h
  · rename_i rest heq
    exact hended (heq ▸ h.of_infix (List.suffix_cons _ _).isInfix)
  · exact hended h

/-- A given number of digits begins a text. -/
theorem exists_run_of_digits? {n : Nat} {cs rest : List Char} {value : Nat}
    (h : digits? n n cs = some (value, rest)) :
    ∃ run, run.length = n ∧ run.all Char.isDigit = true ∧ cs = run ++ rest := by
  unfold digits? at h
  simp only at h
  split_ifs at h with hlength
  obtain ⟨-, rfl⟩ := Prod.mk.inj (Option.some.inj h)
  set run := (cs.take n).takeWhile Char.isDigit with hrun
  have hprefix : run <+: cs.take n := List.takeWhile_prefix _
  have hwhole : run = cs.take n :=
    hprefix.eq_of_length_le (Nat.le_trans (List.length_take_le n cs) hlength)
  have hfull : run.length = n := by
    refine Nat.le_antisymm ?_ hlength
    rw [hwhole]
    exact List.length_take_le n cs
  refine ⟨run, hfull, List.all_takeWhile, ?_⟩
  rw [hfull, hwhole, List.take_append_drop]

theorem eq_cons_of_after? {ch : Char} {cs rest : List Char} (h : after? ch cs = some rest) :
    cs = ch :: rest := by
  cases cs with
  | nil => cases h
  | cons d cs =>
    rw [after?] at h
    split_ifs at h with hd
    rw [hd, Option.some.inj h]

/-- A timestamp begins with a year. -/
theorem year_of_timestamp? {cs : List Char} {ms : Int} (h : timestamp? cs = some ms) :
    ∃ year rest, year.length = 4 ∧ year.all Char.isDigit = true ∧ cs = year ++ '-' :: rest := by
  have hyear : ∃ value rest rest', digits? 4 4 cs = some (value, rest)
      ∧ after? '-' rest = some rest' := by
    cases hdate : date? cs with
    | some _ =>
      obtain ⟨⟨value, rest⟩, hdigits, hdate⟩ := Option.bind_eq_some_iff.mp hdate
      obtain ⟨rest', hafter, -⟩ := Option.bind_eq_some_iff.mp hdate
      exact ⟨value, rest, rest', hdigits, hafter⟩
    | none =>
      have htime : dateTime? cs = some ms := by simpa [timestamp?, hdate] using h
      obtain ⟨⟨value, rest⟩, hdigits, htime⟩ := Option.bind_eq_some_iff.mp htime
      obtain ⟨rest', hafter, -⟩ := Option.bind_eq_some_iff.mp htime
      exact ⟨value, rest, rest', hdigits, hafter⟩
  obtain ⟨value, rest, rest', hdigits, hafter⟩ := hyear
  obtain ⟨year, hlength, hall, hcs⟩ := exists_run_of_digits? hdigits
  exact ⟨year, rest', hlength, hall, by rw [hcs, eq_cons_of_after? hafter]⟩

theorem construct_of_firstTaking {v : Linked} {ts : List CoreType} {t : CoreType}
    {made : Construction} (h : firstTaking v ts = some (t, made)) :
    t ∈ ts ∧ t.construct {} v = made := by
  induction ts with
  | nil => cases h
  | cons t' ts ih =>
    rw [firstTaking] at h
    split at h
    · obtain ⟨hmem, hmade⟩ := ih h
      exact ⟨List.mem_cons_of_mem _ hmem, hmade⟩
    · obtain ⟨rfl, hmade⟩ := Prod.mk.inj (Option.some.inj h)
      exact ⟨List.mem_cons_self, hmade⟩

theorem leaf_of_ofOption {v? : Option Value} {v : Linked}
    (h : .ofOption v? = Construction.value v) : ∃ w, v = .leaf w ∧ v? = some w := by
  cases v? with
  | none => cases h
  | some w => exact ⟨w, (Construction.value.inj h).symm, rfl⟩

/-- What an implicit type makes of a text is a point of time only if the text is a timestamp. -/
theorem announced_of_implicit? {text : List Char} {s : String} {t : CoreType} {v : Linked}
    (hyear : ∀ ms, timestamp? s.toList = some ms → HasYear text)
    (h : implicit? (.leaf (.text s)) = some (t, .value v)) : v.Announced text := by
  obtain ⟨hmem, htaken⟩ := construct_of_firstTaking h
  obtain ⟨w, rfl, hmade⟩ := leaf_of_ofOption htaken
  clear htaken
  simp only [CoreType.implicit, List.mem_cons, List.not_mem_nil, or_false] at hmem
  rcases hmem with rfl | rfl | rfl | rfl | rfl | rfl
  case inr.inr.inr.inr.inl =>
    obtain ⟨ms, hms, rfl⟩ := Option.map_eq_some_iff.mp hmade
    exact hyear ms hms
  all_goals
    simp only [Option.map_eq_some_iff, Option.ite_none_right_eq_some, Option.some.injEq] at hmade
  · obtain ⟨-, rfl⟩ := hmade
    trivial
  all_goals
    obtain ⟨_, _, rfl⟩ := hmade
    trivial

theorem takeWhile_append_cons {p : Char → Bool} {sep : Char} (hsep : p sep = false)
    (run more : List Char) : (run ++ sep :: more).takeWhile p = run.takeWhile p := by
  rw [List.takeWhile_append]
  split_ifs with hlength
  · rw [List.takeWhile_cons_of_neg (by simp [hsep]), List.append_nil]
    exact ((List.takeWhile_prefix p).eq_of_length hlength).symm
  · rfl

theorem exists_newLine? {c : Cursor} {ch : Char} {rest : List Char} (hc : c.rest = ch :: rest)
    (hch : ch = '\n' ∨ ch = '\r') : ∃ d, c.newLine? = some d := by
  have hbreak : ∃ d, c.lineBreak? = some d := by
    unfold Cursor.lineBreak?
    split
    · exact ⟨_, rfl⟩
    · exact ⟨_, rfl⟩
    · exact ⟨_, rfl⟩
    · rename_i hreturn hline
      rcases hch with rfl | rfl
      · exact absurd hc (hline rest)
      · exact absurd hc (hreturn rest)
  obtain ⟨d, hd⟩ := hbreak
  exact ⟨_, Option.map_eq_some_iff.mpr ⟨d, hd, rfl⟩⟩

theorem separation_of_startsWith {c : Cursor} (h : startsWith isBreak c.rest = true) :
    (c.separation false).1 ≠ 0 := by
  obtain ⟨ch, rest, hc⟩ : ∃ ch rest, c.rest = ch :: rest := by
    cases hc : c.rest with
    | nil => simp [hc, startsWith] at h
    | cons ch rest => exact ⟨ch, rest, rfl⟩
  have hch : ch = '\n' ∨ ch = '\r' := by simpa [hc, startsWith, isBreak] using h
  have hwhite : startsWith isWhite c.rest = false := by
    rw [hc]
    rcases hch with rfl | rfl <;> rfl
  obtain ⟨d, hd⟩ := exists_newLine? hc hch
  have hsteps : c.separation false = Cursor.separationIn false c (c.rest.length + 1) := rfl
  rw [hsteps, Cursor.separationIn]
  simp [Cursor.skipWhite_of_startsWith hwhite, hd]

theorem exists_folded {breaks : Nat} (h : breaks ≠ 0) :
    ∃ ch more, folded breaks = ch :: more ∧ isSpacing ch = true := by
  match breaks, h with
  | 1, _ => exact ⟨' ', [], rfl, rfl⟩
  | n + 2, _ => exact ⟨'\n', List.replicate n '\n', rfl, rfl⟩

/-- The first word of a plain scalar stands in the text, as a blank or a line end sets a later line
off. -/
theorem word_plainLines (indent : Nat) (inFlow : Bool) (c : Cursor) (lines : Nat) :
    Yields (fun out => out.1.takeWhile (fun ch => !isSpacing ch) <+: c.rest)
      (plainLines indent inFlow c lines) := by
  cases lines with
  | zero => exact .ok List.nil_prefix
  | succ lines =>
    have htext : (trimmedEnd (plainRun inFlow true c.rest)).takeWhile (fun ch => !isSpacing ch)
        <+: c.rest :=
      (List.takeWhile_prefix _).trans ((trimmedEnd_isPrefix _).trans (plainRun_isPrefix _ _ _))
    rw [plainLines]
    split
    · rename_i hbreak
      simp only
      split
      · refine (Yields.anything _).bind fun _ _ => ?_
        split
        · refine (Yields.anything _).bind fun out _ => .ok ?_
          have hended : startsWith isBreak (c.past (plainRun inFlow true c.rest)
              (c.rest.drop (plainRun inFlow true c.rest).length)).rest = true := hbreak
          obtain ⟨ch, more, hfolded, hch⟩ := exists_folded (separation_of_startsWith hended)
          rw [hfolded, List.append_assoc, List.cons_append, takeWhile_append_cons (by simp [hch])]
          exact htext
        · exact .ok htext
      · exact (Yields.anything _).bind fun _ _ => .ok htext
    · exact (Yields.anything _).bind fun _ _ => .ok htext

theorem isSpacing_of_isDigit {ch : Char} (h : ch.isDigit = true) : isSpacing ch = false := by
  by_contra hcon
  simp only [isSpacing, isWhite, isBreak, Bool.not_eq_false, Bool.or_eq_true, decide_eq_true_eq]
    at hcon
  rcases hcon with (rfl | rfl) | (rfl | rfl) <;> cases h

/-- A plain scalar that is a timestamp has the year from its text. -/
theorem hasYear_of_plain {text : List Char} {c : Cursor} (h : c.Within text) (indent : Nat)
    (inFlow : Bool) :
    Yields? (fun found => ∀ ms, timestamp? found.1 = some ms → HasYear text)
      (plain? indent inFlow c) := by
  unfold plain?
  split
  · refine (word_plainLines indent inFlow c _).map fun out hword => ?_
    rintro _ ⟨⟩ ms hms
    obtain ⟨year, rest, hlength, hall, hout⟩ := year_of_timestamp? hms
    have hsteady : ∀ ch ∈ year, (!isSpacing ch) = true := fun ch hch => by
      rw [isSpacing_of_isDigit (List.all_eq_true.mp hall ch hch)]
      rfl
    rw [hout, List.takeWhile_append_of_pos hsteady, List.takeWhile_cons_of_pos (by rfl)] at hword
    have hyear : year ++ ['-'] <+: c.rest := by
      refine List.IsPrefix.trans ?_ hword
      exact (List.prefix_append_right_inj _).mpr (List.cons_prefix_cons.mpr ⟨rfl, List.nil_prefix⟩)
    obtain ⟨before, -, -, htext, -⟩ := h
    have hrest : c.rest <:+ text := ⟨before, htext.symm⟩
    exact ⟨year, hlength, hall, hyear.isInfix.trans hrest.isInfix⟩
  · exact .missing

end ParamForm.Yaml
