import ParamForm.Proofs.Yaml.Plain
import ParamForm.Yaml.BlockScalar

/-!
# Literal scalars read back

A text with line ends is written line by line (`linesOf`, `page`) below a header, and read as the
text again (`block?_literal`): the header tells the indentation where the first line would hide it,
and what becomes of the line ends after the last line.
-/

namespace ParamForm.Yaml

/-- The lines of a text; a line end after the last line begins no further one. -/
def linesOf : List Char → List (List Char)
  | [] => []
  | c :: cs =>
    if c = '\n' then [] :: linesOf cs
    else match linesOf cs with
      | [] => [[c]]
      | l :: ls => (c :: l) :: ls

/-- Lines on a page, each after a line end and, if it is not empty, after spaces. -/
def page (spaces : Nat) (ls : List (List Char)) : List Char :=
  ls.flatMap fun l => '\n' :: (if l.isEmpty then [] else List.replicate spaces ' ' ++ l)

/-- Lines with a line end after each. -/
def closed (ls : List (List Char)) : List Char :=
  ls.flatMap (· ++ ['\n'])

/-- The line end after a text that has none at its end. -/
def missingBreak (cs : List Char) : List Char :=
  if cs.getLast? = some '\n' then [] else ['\n']

theorem linesOf_ne_nil {cs : List Char} (h : cs ≠ []) : linesOf cs ≠ [] := by
  cases cs with
  | nil => exact absurd rfl h
  | cons c cs =>
    rw [linesOf]
    split_ifs
    · simp
    · split <;> simp

theorem missingBreak_cons (c : Char) {cs : List Char} (h : cs ≠ []) :
    missingBreak (c :: cs) = missingBreak cs := by
  cases cs with
  | nil => exact absurd rfl h
  | cons d ds => rw [missingBreak, missingBreak, List.getLast?_cons_cons]

theorem closed_linesOf {cs : List Char} (h : cs ≠ []) :
    closed (linesOf cs) = cs ++ missingBreak cs := by
  induction cs with
  | nil => exact absurd rfl h
  | cons c cs ih =>
    by_cases hcs : cs = []
    · subst hcs
      by_cases hc : c = '\n' <;> simp [linesOf, closed, missingBreak, hc]
    · rw [missingBreak_cons c hcs]
      have ih := ih hcs
      by_cases hc : c = '\n'
      · rw [closed] at ih ⊢
        simp [linesOf, hc, ih]
      · obtain ⟨l, ls, hl⟩ := List.exists_cons_of_ne_nil (linesOf_ne_nil hcs)
        rw [hl, closed, List.flatMap_cons] at ih
        simp only [linesOf, if_neg hc, hl, closed, List.flatMap_cons]
        simpa using ih

theorem mem_linesOf {cs : List Char} {l : List Char} {c : Char} (hl : l ∈ linesOf cs)
    (hc : c ∈ l) : c ∈ cs ∧ c ≠ '\n' := by
  induction cs generalizing l with
  | nil => simp [linesOf] at hl
  | cons d ds ih =>
    rw [linesOf] at hl
    split_ifs at hl with hd
    · rcases List.mem_cons.mp hl with rfl | hl
      · simp at hc
      · exact ⟨List.mem_cons_of_mem _ (ih hl hc).1, (ih hl hc).2⟩
    · split at hl
      · rw [List.mem_singleton] at hl
        subst hl
        rw [List.mem_singleton] at hc
        subst hc
        exact ⟨by simp, hd⟩
      · rename_i l' ls hls
        rcases List.mem_cons.mp hl with rfl | hl
        · rcases List.mem_cons.mp hc with rfl | hc
          · exact ⟨by simp, hd⟩
          · have := ih (by rw [hls]; simp) hc
            exact ⟨List.mem_cons_of_mem _ this.1, this.2⟩
        · have := ih (by rw [hls]; exact List.mem_cons_of_mem _ hl) hc
          exact ⟨List.mem_cons_of_mem _ this.1, this.2⟩

/-- The last line is empty only where the text is one line end or has two at its end. -/
theorem reverse_of_getLast?_linesOf {cs : List Char} (h : (linesOf cs).getLast? = some []) :
    cs.reverse = ['\n'] ∨ ∃ front, cs.reverse = '\n' :: '\n' :: front := by
  induction cs with
  | nil => simp [linesOf] at h
  | cons c cs ih =>
    by_cases hcs : cs = []
    · subst hcs
      by_cases hc : c = '\n'
      · exact .inl (by simp [hc])
      · simp [linesOf, hc] at h
    · obtain ⟨l, ls, hl⟩ := List.exists_cons_of_ne_nil (linesOf_ne_nil hcs)
      by_cases hc : c = '\n'
      · rw [linesOf, if_pos hc, hl, List.getLast?_cons_cons, ← hl] at h
        rcases ih h with h | ⟨front, h⟩
        · exact .inr ⟨[], by simp [h, hc]⟩
        · exact .inr ⟨front ++ [c], by simp [h]⟩
      · simp only [linesOf, if_neg hc, hl] at h
        cases ls with
        | nil => simp at h
        | cons l' ls =>
          rw [List.getLast?_cons_cons] at h
          have hlast : (linesOf cs).getLast? = some [] := by rw [hl, List.getLast?_cons_cons, h]
          rcases ih hlast with h | ⟨front, h⟩
          · have : cs = ['\n'] := by simpa using congrArg List.reverse h
            subst this
            simp [linesOf] at hl
          · exact .inr ⟨front ++ [c], by simp [h]⟩

/-- Whether the first line that is not empty begins with a space. -/
def opensWithSpace : List (List Char) → Bool
  | [] => false
  | l :: ls => if l.isEmpty then opensWithSpace ls else startsWith (· = ' ') l

theorem opensWithSpace_linesOf (cs : List Char) :
    opensWithSpace (linesOf cs) = startsWith (· = ' ') (cs.dropWhile (· = '\n')) := by
  induction cs with
  | nil => rfl
  | cons c cs ih =>
    by_cases hc : c = '\n'
    · simp [linesOf, hc, opensWithSpace, ih]
    · rw [linesOf, if_neg hc, List.dropWhile_cons_of_neg (by simpa using hc)]
      split <;> simp [opensWithSpace, startsWith]

theorem getLast?_indented (spaces : Nat) (b : Bool) (cs : List Char) :
    (indented spaces b cs).getLast? = cs.getLast? := by
  induction cs generalizing b with
  | nil => rfl
  | cons c cs ih =>
    have key : ∀ b', (c :: indented spaces b' cs).getLast? = (c :: cs).getLast? := by
      intro b'
      rw [List.getLast?_cons, List.getLast?_cons, ih]
    rw [indented]
    split_ifs with h1 h2
    · exact key true
    · rw [List.getLast?_append, key false]
      simp [List.getLast?_cons]
    · exact key false

/-- The lines that are written, and a line end at the end if the text has one. -/
theorem indented_eq (spaces : Nat) {cs : List Char} (h : cs ≠ []) :
    '\n' :: indented spaces true cs ++ missingBreak cs = page spaces (linesOf cs) ++ ['\n']
      ∧ ∀ l ls, linesOf cs = l :: ls →
        indented spaces false cs ++ missingBreak cs = l ++ page spaces ls ++ ['\n'] := by
  induction cs with
  | nil => exact absurd rfl h
  | cons c cs ih =>
    by_cases hcs : cs = []
    · subst hcs
      by_cases hc : c = '\n' <;> simp [linesOf, indented, page, missingBreak, hc]
    · obtain ⟨ih1, ih2⟩ := ih hcs
      obtain ⟨l, ls, hl⟩ := List.exists_cons_of_ne_nil (linesOf_ne_nil hcs)
      have ih2 := ih2 l ls hl
      rw [missingBreak_cons c hcs]
      by_cases hc : c = '\n'
      · refine ⟨?_, fun l' ls' hl' => ?_⟩
        · simp only [linesOf, indented, hc, page] at ih1 ⊢
          simpa using ih1
        · simp only [linesOf, if_pos hc, List.cons.injEq] at hl'
          obtain ⟨rfl, rfl⟩ := hl'
          simp only [indented, hc]
          simpa using ih1
      · refine ⟨?_, fun l' ls' hl' => ?_⟩
        · simp only [linesOf, if_neg hc, hl, indented, page, List.flatMap_cons, if_true] at ih2 ⊢
          simpa [page] using ih2
        · simp only [linesOf, if_neg hc, hl, List.cons.injEq] at hl'
          obtain ⟨rfl, rfl⟩ := hl'
          simp only [indented, if_neg hc]
          simpa using ih2

/-- The lines of a literal scalar on the page. -/
theorem withoutLastBreak_indented (spaces : Nat) {cs : List Char} (h : cs ≠ []) :
    '\n' :: withoutLastBreak (indented spaces true cs) = page spaces (linesOf cs) := by
  have hpage := (indented_eq spaces h).1
  have hlast := getLast?_indented spaces true cs
  by_cases hbreak : cs.getLast? = some '\n'
  · rw [hbreak, List.getLast?_eq_some_iff] at hlast
    obtain ⟨front, hfront⟩ := hlast
    have hcut : withoutLastBreak (front ++ ['\n']) = front := by simp [withoutLastBreak]
    rw [missingBreak, if_pos hbreak, hfront, List.append_nil, ← List.cons_append] at hpage
    rw [hfront, hcut]
    exact List.append_cancel_right hpage
  · rw [missingBreak, if_neg hbreak] at hpage
    have hcut : withoutLastBreak (indented spaces true cs) = indented spaces true cs := by
      unfold withoutLastBreak
      split
      · rename_i front hfront
        rw [hlast.symm, ← List.head?_reverse, hfront] at hbreak
        exact absurd rfl hbreak
      · rfl
    rw [hcut]
    exact List.append_cancel_right hpage

/-! ## Reading -/

/-- What a chomping takes off the closed lines of a text. -/
def Chomping.cut : Chomping → List Char
  | .strip => ['\n']
  | .clip | .keep => []

/-- The line ends that were passed and not yet given out. -/
def BlockState.pending (s : BlockState) : List Char :=
  List.replicate (if s.begun then 1 + s.empties else s.empties) '\n'

/-- Whether the lines that are left may end in empty ones. -/
def BlockState.Closes (s : BlockState) (chomping : Chomping) (ls : List (List Char)) : Prop :=
  chomping = .keep ∨
    if ls = [] then s.begun = true ∧ s.empties = 0 else ls.getLast? ≠ some []

/-- How the indentation of written lines stands to a state: it is settled, or the first line that is
not empty will settle it. -/
def BlockState.Expects (s : BlockState) (spaces : Nat) (ls : List (List Char)) : Prop :=
  (s.settled = true ∧ s.indent = spaces) ∨
    (s.settled = false ∧ s.indent + 1 = spaces ∧ opensWithSpace ls = false)

theorem page_append_newline (spaces : Nat) (ls : List (List Char)) (rest : List Char) :
    ∃ below, page spaces ls ++ '\n' :: rest = '\n' :: below := by
  cases ls with
  | nil => exact ⟨rest, rfl⟩
  | cons l ls => exact ⟨_, rfl⟩

theorem length_le_page (spaces : Nat) (ls : List (List Char)) :
    ls.length ≤ (page spaces ls).length := by
  induction ls with
  | nil => exact Nat.le_refl _
  | cons l ls ih =>
    rw [page] at ih ⊢
    rw [List.flatMap_cons, List.length_append, List.length_cons, List.length_cons]
    omega

theorem BlockState.pending_succ (s : BlockState) :
    ({ s with empties := s.empties + 1 } : BlockState).pending = s.pending ++ ['\n'] := by
  simp only [pending]
  split_ifs
  · rw [← Nat.add_assoc, List.replicate_succ']
  · rw [List.replicate_succ']

theorem BlockState.ending_append_cut {s : BlockState} {chomping : Chomping}
    (h : s.Closes chomping []) : s.ending chomping ++ chomping.cut = s.pending := by
  rcases h with rfl | h
  · simp [ending, pending, Chomping.cut]
  · obtain ⟨hbegun, hempties⟩ : s.begun = true ∧ s.empties = 0 := by simpa using h
    cases chomping <;> simp [ending, pending, Chomping.cut, hbegun, hempties]

theorem BlockState.gap_literal (s : BlockState) (b : Bool) : s.gap false b = s.pending := by
  simp [gap, pending]

/-- The state once a line of an indentation was entered. -/
def BlockState.entered (s : BlockState) (n : Nat) : BlockState :=
  if s.settled then s else { s with indent := max s.indent n }

/-- The spaces before a line are stepped over as far as they are indentation. -/
theorem BlockState.enter_spaces {s : BlockState} (c : Cursor) {n : Nat} (rest : List Char)
    (hn : n ≤ s.indent ∧ startsWith (· = ' ') rest = false ∨ s.settled = true ∧ n = s.indent
      ∨ s.settled = false ∧ startsWith (· = ' ') rest = false) :
    s.enter { c.below 0 (List.replicate n ' ' ++ rest) with indent := c.indent }
      = (s.entered n, c.below n rest) := by
  set more := (rest.takeWhile (· = ' ')).length with hmore
  have hspaces : ((List.replicate n ' ' ++ rest).takeWhile (· = ' ')).length = n + more := by
    rw [List.takeWhile_append_of_pos (by simp), List.length_append, List.length_replicate]
  have hnone : startsWith (· = ' ') rest = false → more = 0 := by
    intro h
    cases rest with
    | nil => rfl
    | cons a as =>
      have ha : ¬ a = ' ' := by simpa [startsWith] using h
      simp [hmore, ha]
  have hlen : (if s.settled then min (n + more) s.indent else n + more) = n := by
    cases hs : s.settled <;> simp only [Bool.false_eq_true, if_false, if_true]
    · rcases hn with ⟨-, hr⟩ | ⟨h, -⟩ | ⟨-, hr⟩
      · rw [hnone hr, Nat.add_zero]
      · simp [hs] at h
      · rw [hnone hr, Nat.add_zero]
    · rcases hn with ⟨hle, hr⟩ | ⟨-, rfl⟩ | ⟨h, -⟩
      · rw [hnone hr]
        omega
      · omega
      · simp [hs] at h
  have htake : (List.replicate n ' ' ++ rest).take n = List.replicate n ' ' :=
    List.take_left' (List.length_replicate ..)
  have hdrop : (List.replicate n ' ' ++ rest).drop n = rest :=
    List.drop_left' (List.length_replicate ..)
  simp only [enter, Cursor.below, hspaces, hlen, htake, hdrop, entered]
  simp [Cursor.past]

/-- A line that is indented less ends the scalar. -/
theorem blockLines_end {chomping : Chomping} {s : BlockState} {c : Cursor} {k : Nat}
    {content : List Char} (hc : c.rest = '\n' :: (List.replicate k ' ' ++ content))
    (hcontent : startsToken content = true) (hk : k < s.indent) (lines : Nat) :
    blockLines false chomping s c (lines + 1) = .ok (s.ending chomping, c.below k content) := by
  have hempty : c.rest.isEmpty = false := by simp [hc]
  have hbreak := Cursor.lineBreak?_newline hc
  have henter := BlockState.enter_spaces c content
    (.inl ⟨Nat.le_of_lt hk, startsWith_space_of_startsToken hcontent⟩)
  have hnobreak : startsWith isBreak (c.below k content).rest = false :=
    startsWith_isBreak_of_startsToken hcontent
  have hsame : s.entered k = s := by
    rw [BlockState.entered, Nat.max_eq_left (Nat.le_of_lt hk)]
    split_ifs <;> rfl
  have hpos : s.indent ≠ 0 := Nat.ne_of_gt (Nat.zero_lt_of_lt hk)
  have hless : (c.below k content).indent < s.indent := hk
  simp only [blockLines, hempty, hbreak, henter, hnobreak, hsame]
  simp [hpos, hless]

/-- An empty line is counted. -/
theorem blockLines_emptyLine {chomping : Chomping} {s : BlockState} {c : Cursor}
    {rest : List Char} (hc : c.rest = '\n' :: '\n' :: rest) (lines : Nat) :
    blockLines false chomping s c (lines + 1)
      = blockLines false chomping { s with empties := s.empties + 1 } (c.below 0 ('\n' :: rest))
          lines := by
  have hempty : c.rest.isEmpty = false := by simp [hc]
  have hbreak := Cursor.lineBreak?_newline hc
  have henter := BlockState.enter_spaces (s := s) (n := 0) c ('\n' :: rest)
    (.inl ⟨Nat.zero_le _, rfl⟩)
  have hsame : s.entered 0 = s := by
    rw [BlockState.entered, Nat.max_eq_left (Nat.zero_le _)]
    split_ifs <;> rfl
  have hstarts : startsWith isBreak (c.below 0 ('\n' :: rest)).rest = true := rfl
  rw [List.replicate_zero, List.nil_append] at henter
  simp only [blockLines, hempty, hbreak, henter, hsame, hstarts]
  simp

/-- A line with text settles the indentation and gives out the line ends that were pending. -/
theorem blockLines_textLine {chomping : Chomping} {spaces : Nat} {s : BlockState} {c : Cursor}
    {l rest : List Char} (hspaces : 1 < spaces) (hne : l ≠ []) (hl : l.all isWritable = true)
    (hs : s.settled = true ∧ s.indent = spaces
      ∨ s.settled = false ∧ s.indent + 1 = spaces ∧ startsWith (· = ' ') l = false)
    (hc : c.rest = '\n' :: (List.replicate spaces ' ' ++ (l ++ '\n' :: rest))) (lines : Nat) :
    blockLines false chomping s c (lines + 1)
      = (blockLines false chomping ⟨spaces, true, true, 0, false⟩
          ((c.below spaces (l ++ '\n' :: rest)).past l ('\n' :: rest)) lines).map
          fun (text, d) => (s.pending ++ l ++ text, d) := by
  obtain ⟨a, as, rfl⟩ := List.exists_cons_of_ne_nil hne
  have hempty : c.rest.isEmpty = false := by simp [hc]
  have hbreak := Cursor.lineBreak?_newline hc
  have henter : s.enter _ = _ := BlockState.enter_spaces (n := spaces) c
    (a :: as ++ '\n' :: rest) (by
      rcases hs with ⟨h, hi⟩ | ⟨h, -, hstart⟩
      · exact .inr (.inl ⟨h, hi.symm⟩)
      · exact .inr (.inr ⟨h, hstart⟩))
  have hindent : (s.entered spaces).indent = spaces := by
    rcases hs with ⟨h, hi⟩ | ⟨h, hi, -⟩
    · rw [BlockState.entered, if_pos h, hi]
    · rw [BlockState.entered, h]
      exact Nat.max_eq_right (by omega)
  have hpending : (s.entered spaces).pending = s.pending := by
    rw [BlockState.entered]
    split_ifs <;> rfl
  set e := c.below spaces (a :: as ++ '\n' :: rest) with he
  have ha : startsWith isBreak e.rest = false := by
    rw [List.all_cons, Bool.and_eq_true] at hl
    exact isBreak_of_isWritable hl.1
  have hrun : e.rest.takeWhile (fun ch => !isBreak ch) = a :: as :=
    takeWhile_append_of_startsWith
      (all_of_imp (fun ch hch => by rw [isBreak_of_isWritable hch]; rfl) hl) rfl
  have hdrop : e.rest.drop (a :: as).length = '\n' :: rest := List.drop_left
  have hprint := checkPrintable_of_isWritable hl
  have hpos : spaces ≠ 0 := by omega
  have hdeep : ¬ e.indent < spaces := Nat.lt_irrefl _
  simp only [blockLines, hempty, hbreak, henter, ha, hrun, hdrop, hprint, hindent,
    BlockState.gap_literal, hpending, BlockState.afterLine, bind, Except.bind]
  simp only [hpos, hdeep, Bool.false_and, Bool.false_eq_true, if_false, decide_false,
    Bool.and_false]
  cases blockLines false chomping ⟨spaces, true, true, 0, false⟩
    (e.past (a :: as) ('\n' :: rest)) lines <;> simp [Except.map]

/-- Reading written lines gives the line ends that were pending and the lines, but for what the
chomping takes off, and comes to the beginning of the next line. -/
theorem blockLines_page (chomping : Chomping) {spaces k : Nat} {content : List Char}
    (hk : k + 1 < spaces) (hcontent : startsToken content = true) :
    ∀ (ls : List (List Char)) (s : BlockState) (c : Cursor) (lines : Nat),
      (∀ l ∈ ls, l.all isWritable = true) → s.Expects spaces ls → s.Closes chomping ls →
      c.rest = page spaces ls ++ '\n' :: (List.replicate k ' ' ++ content) → ls.length < lines →
      ∃ text d, blockLines false chomping s c lines = .ok (text, d)
        ∧ text ++ chomping.cut = s.pending ++ closed ls
        ∧ d.AtLine k content ∧ c.line < d.line
  | _, _, _, 0, _, _, _, _, hlines => absurd hlines (Nat.not_lt_zero _)
  | [], s, c, lines + 1, _, hexpects, hcloses, hc, _ => by
    have hless : k < s.indent := by
      rcases hexpects with ⟨-, hi⟩ | ⟨-, hi, -⟩ <;> omega
    refine ⟨_, _, blockLines_end hc hcontent hless lines, ?_, c.atLine_below k content,
      Nat.lt_succ_self _⟩
    rw [s.ending_append_cut hcloses]
    simp [closed]
  | l :: ls, s, c, lines + 1, hw, hexpects, hcloses, hc, hlines => by
    have hw' : ∀ l ∈ ls, l.all isWritable = true := fun l hl => hw l (List.mem_cons_of_mem _ hl)
    rw [List.length_cons] at hlines
    obtain ⟨below, hbelow⟩ := page_append_newline spaces ls (List.replicate k ' ' ++ content)
    have hc0 : c.rest = '\n' :: ((if l.isEmpty then [] else List.replicate spaces ' ' ++ l)
        ++ '\n' :: below) := by
      rw [hc, ← hbelow]
      simp [page]
    by_cases hl : l = []
    · subst hl
      have hexpects' : ({ s with empties := s.empties + 1 } : BlockState).Expects spaces ls :=
        hexpects.imp id fun h => ⟨h.1, h.2.1, by simpa [opensWithSpace] using h.2.2⟩
      have hcloses' : ({ s with empties := s.empties + 1 } : BlockState).Closes chomping ls := by
        refine hcloses.imp id fun h => ?_
        cases ls with
        | nil => simp at h
        | cons l' ls => simpa using h
      obtain ⟨text, d, hread, htext, hline, hlt⟩ := blockLines_page chomping hk hcontent ls
        { s with empties := s.empties + 1 } (c.below 0 ('\n' :: below)) lines hw' hexpects'
        hcloses' hbelow.symm (by omega)
      refine ⟨text, d, ?_, ?_, hline, Nat.lt_trans (Nat.lt_succ_self _) hlt⟩
      · rw [blockLines_emptyLine hc0, hread]
      · rw [htext, BlockState.pending_succ]
        simp [closed]
    · have hexpects' : s.settled = true ∧ s.indent = spaces
          ∨ s.settled = false ∧ s.indent + 1 = spaces ∧ startsWith (· = ' ') l = false :=
        hexpects.imp id fun h => ⟨h.1, h.2.1, by simpa [opensWithSpace, hl] using h.2.2⟩
      have hcloses' : (⟨spaces, true, true, 0, false⟩ : BlockState).Closes chomping ls := by
        refine hcloses.imp id fun h => ?_
        cases ls with
        | nil => simp
        | cons l' ls => simpa using h
      obtain ⟨text, d, hread, htext, hline, hlt⟩ := blockLines_page chomping hk hcontent ls
        ⟨spaces, true, true, 0, false⟩
        ((c.below spaces (l ++ '\n' :: below)).past l ('\n' :: below)) lines hw' (.inl ⟨rfl, rfl⟩)
        hcloses' hbelow.symm (by omega)
      refine ⟨s.pending ++ l ++ text, d, ?_, ?_, hline, Nat.lt_trans (Nat.lt_succ_self _) hlt⟩
      · rw [blockLines_textLine (by omega) hl (hw l List.mem_cons_self) hexpects'
          (by simpa [hl] using hc0), hread]
        rfl
      · rw [List.append_assoc, htext]
        simp [BlockState.pending, closed]

/-- What the header of a text says of the line ends after it. -/
def chompingOf (cs : List Char) : Option Chomping :=
  match cs.reverse with
  | ['\n'] | '\n' :: '\n' :: _ => some .keep
  | '\n' :: _ => none
  | _ => some .strip

/-- Whether the header of a text gives its indentation. -/
def givesIndent (cs : List Char) : Bool :=
  startsWith (· = ' ') (cs.dropWhile (· = '\n'))

/-- The indicator of a chomping. -/
def chompingMark : Option Chomping → List Char
  | some .keep => ['+']
  | some .strip => ['-']
  | _ => []

/-- The indicators of a header. -/
def indicatorsOf (cs : List Char) : List Char :=
  (if givesIndent cs then ['2'] else []) ++ chompingMark (chompingOf cs)

theorem literalHeader_eq (cs : List Char) : literalHeader cs = '|' :: indicatorsOf cs := by
  unfold literalHeader indicatorsOf givesIndent chompingOf chompingMark
  rcases cs.reverse with _ | ⟨a, _ | ⟨b, front⟩⟩
  · simp
  · by_cases ha : a = '\n' <;> simp [ha]
  · by_cases ha : a = '\n' <;> by_cases hb : b = '\n' <;> simp [ha, hb]

section Indicators

variable {floor : Nat} {rest : List Char} {c : Cursor} (h : BlockHeader)

theorem blockIndicators_newline (hc : c.rest = '\n' :: rest) (steps : Nat) :
    blockIndicators floor h c steps = .ok (h, c) := by
  cases steps <;> simp [blockIndicators, hc]

theorem blockIndicators_chomping {ch : Char} (hch : ch = '+' ∨ ch = '-')
    (hnone : h.chomping = none) (hc : c.rest = ch :: rest) (steps : Nat) :
    blockIndicators floor h c (steps + 1)
      = blockIndicators floor { h with chomping := some (if ch = '+' then .keep else .strip) }
          (c.past [ch] rest) steps := by
  simp only [blockIndicators, hc, if_pos hch, hnone, Cursor.next_eq hc]
  rfl

theorem blockIndicators_two (hnone : h.indent = none) (hc : c.rest = '2' :: rest) (steps : Nat) :
    blockIndicators floor h c (steps + 1)
      = blockIndicators floor { h with indent := some (floor + 1) } (c.past ['2'] rest) steps := by
  simp [blockIndicators, hc, hnone, Cursor.next_eq hc, Char.isDigit]

theorem blockIndicators_chompingMark {chomping : Option Chomping} (hclip : chomping ≠ some .clip)
    (hnone : h.chomping = none) (hc : c.rest = chompingMark chomping ++ '\n' :: rest)
    (steps : Nat) :
    blockIndicators floor h c (steps + 1)
      = .ok ({ h with chomping := chomping }, c.past (chompingMark chomping) ('\n' :: rest)) := by
  rcases chomping with _ | (_ | _ | _)
  · have hmark : chompingMark none = [] := rfl
    rw [hmark, List.nil_append] at hc
    rw [blockIndicators_newline h hc, hmark, Cursor.past_nil hc, ← hnone]
  · rw [blockIndicators_chomping h (.inr rfl) hnone hc, blockIndicators_newline _ rfl]
    rfl
  · exact absurd rfl hclip
  · rw [blockIndicators_chomping h (.inl rfl) hnone hc, blockIndicators_newline _ rfl]
    rfl

theorem chompingOf_ne_clip (cs : List Char) : chompingOf cs ≠ some .clip := by
  unfold chompingOf
  split <;> simp

/-- The indicators of a header are read up to the end of its line. -/
theorem blockIndicators_indicatorsOf (floor : Nat) {cs : List Char}
    (hc : c.rest = indicatorsOf cs ++ '\n' :: rest) :
    blockIndicators floor ⟨false, none, none⟩ c 3
      = .ok (⟨false, chompingOf cs, if givesIndent cs then some (floor + 1) else none⟩,
          c.past (indicatorsOf cs) ('\n' :: rest)) := by
  have hclip := chompingOf_ne_clip cs
  unfold indicatorsOf at hc ⊢
  generalize givesIndent cs = gives at hc ⊢
  cases gives with
  | false => exact blockIndicators_chompingMark ⟨false, none, none⟩ hclip rfl hc 2
  | true =>
    rw [if_pos rfl, List.append_assoc, List.singleton_append] at hc
    rw [blockIndicators_two ⟨false, none, none⟩ rfl hc,
      blockIndicators_chompingMark _ hclip rfl rfl, Cursor.past_past]
    rfl

end Indicators

/-! ## Scalars -/

theorem pending_start (floor : Nat) (b : Bool) :
    (⟨floor, b, false, 0, false⟩ : BlockState).pending = [] := rfl

/-- What is left of the closed lines of a text after its chomping is the text. -/
theorem eq_of_append_cut {cs text : List Char} (h : cs ≠ [])
    (htext : text ++ ((chompingOf cs).getD .clip).cut = closed (linesOf cs)) : text = cs := by
  rw [closed_linesOf h, missingBreak, ← List.head?_reverse] at htext
  unfold chompingOf at htext
  split at htext
  · rename_i hr
    simpa [hr, Chomping.cut] using htext
  · rename_i hr
    simpa [hr, Chomping.cut] using htext
  · rename_i hr
    simpa [hr, Chomping.cut] using htext
  · rename_i hr
    have hne : cs.reverse.head? ≠ some '\n' := by
      intro hhead
      obtain ⟨t, ht⟩ := List.head?_eq_some_iff.mp hhead
      exact hr t ht
    rw [if_neg hne] at htext
    exact List.append_cancel_right htext

theorem closes_start {cs : List Char} (h : cs ≠ []) (indent : Nat) (b : Bool) :
    (⟨indent, b, false, 0, false⟩ : BlockState).Closes ((chompingOf cs).getD .clip)
      (linesOf cs) := by
  by_cases hkeep : (chompingOf cs).getD .clip = .keep
  · exact .inl hkeep
  · refine .inr ?_
    rw [if_neg (linesOf_ne_nil h)]
    intro hlast
    apply hkeep
    rcases reverse_of_getLast?_linesOf hlast with hr | ⟨front, hr⟩ <;> simp [chompingOf, hr]

/-- A text with line ends, written line by line one level deeper than `floor`, is read as itself. -/
theorem block?_literal {cs content : List Char} {floor k : Nat} {c : Cursor} (hne : cs ≠ [])
    (hw : cs.all (fun ch => isWritable ch || ch = '\n') = true) (hk : k < floor)
    (hcontent : startsToken content = true)
    (hc : c.rest = literalHeader cs ++ '\n' :: withoutLastBreak (indented (floor + 1) true cs)
      ++ '\n' :: (List.replicate k ' ' ++ content)) :
    ∃ d, block? floor c = .ok (some (cs, d)) ∧ d.AtLine k content ∧ c.line < d.line := by
  set tail := '\n' :: (List.replicate k ' ' ++ content) with htail
  have hpage := withoutLastBreak_indented (floor + 1) hne
  obtain ⟨below, hbelow⟩ := page_append_newline (floor + 1) (linesOf cs)
    (List.replicate k ' ' ++ content)
  have hc' : c.rest = '|' :: (indicatorsOf cs ++ '\n' :: below) := by
    rw [hc, literalHeader_eq, hpage, htail, List.append_assoc, hbelow, List.cons_append]
  have hnext := Cursor.next_eq hc'
  have hnextRest : c.next.rest = indicatorsOf cs ++ '\n' :: below := by rw [hnext]; rfl
  have hindicators := blockIndicators_indicatorsOf floor hnextRest
  set d := c.next.past (indicatorsOf cs) ('\n' :: below) with hd
  have hwhite : startsWith isWhite d.rest = false := rfl
  have hwritable : ∀ l ∈ linesOf cs, l.all isWritable = true := by
    intro l hl
    rw [List.all_eq_true] at hw ⊢
    intro ch hch
    obtain ⟨hmem, hbreak⟩ := mem_linesOf hl hch
    simpa [hbreak] using hw ch hmem
  set s : BlockState := ⟨(if givesIndent cs then some (floor + 1) else none).getD floor,
    (if givesIndent cs then some (floor + 1) else none).isSome, false, 0, false⟩ with hs
  have hexpects : s.Expects (floor + 1) (linesOf cs) := by
    cases hgives : givesIndent cs with
    | true => exact .inl ⟨by simp [hs, hgives], by simp [hs, hgives]⟩
    | false =>
      refine .inr ⟨by simp [hs, hgives], by simp [hs, hgives], ?_⟩
      rw [opensWithSpace_linesOf]
      exact hgives
  have hlen : (linesOf cs).length < d.rest.length + 1 := by
    have hpagelen := length_le_page (floor + 1) (linesOf cs)
    have : d.rest.length = (page (floor + 1) (linesOf cs)).length + tail.length := by
      rw [← List.length_append, htail, hbelow]
      rfl
    omega
  obtain ⟨text, e, hread, htext, hline, hlt⟩ := blockLines_page
    ((chompingOf cs).getD .clip) (Nat.succ_lt_succ hk) hcontent (linesOf cs) s d
    (d.rest.length + 1) hwritable hexpects (closes_start hne _ _) hbelow.symm hlen
  rw [hs, pending_start, List.nil_append] at htext
  obtain rfl := eq_of_append_cut hne htext
  refine ⟨e, ?_, hline, ?_⟩
  · simp only [block?, hc', if_true, true_or]
    simp [hindicators, bind, Except.bind, hwhite, ← hs, hread, Except.map]
  · rw [hd, hnext] at hlt
    exact hlt

theorem mem_indented {spaces : Nat} {b : Bool} {cs : List Char} {c : Char}
    (h : c ∈ indented spaces b cs) : c ∈ cs ∨ c = ' ' := by
  induction cs generalizing b with
  | nil => simp [indented] at h
  | cons d ds ih =>
    rw [indented] at h
    split_ifs at h with hd hb
    · rcases List.mem_cons.mp h with rfl | h
      · exact .inl List.mem_cons_self
      · exact (ih h).imp_left (List.mem_cons_of_mem _)
    · rcases List.mem_append.mp h with h | h
      · exact .inr (List.eq_of_mem_replicate h)
      · rcases List.mem_cons.mp h with rfl | h
        · exact .inl List.mem_cons_self
        · exact (ih h).imp_left (List.mem_cons_of_mem _)
    · rcases List.mem_cons.mp h with rfl | h
      · exact .inl List.mem_cons_self
      · exact (ih h).imp_left (List.mem_cons_of_mem _)

theorem mem_withoutLastBreak {cs : List Char} {c : Char} (h : c ∈ withoutLastBreak cs) :
    c ∈ cs := by
  unfold withoutLastBreak at h
  split at h
  · rename_i front hfront
    rw [← List.mem_reverse, hfront]
    exact List.mem_cons_of_mem _ (List.mem_reverse.mp h)
  · exact h

theorem noNull_literal {cs : List Char} (hw : cs.all (fun c => isWritable c || c = '\n') = true)
    (spaces : Nat) :
    '\x00' ∉ literalHeader cs ++ '\n' :: withoutLastBreak (indented spaces true cs) := by
  have hheader : '\x00' ∉ literalHeader cs := by
    rw [literalHeader_eq, indicatorsOf]
    have hmark : ∀ chomping, '\x00' ∉ chompingMark chomping := by
      rintro (_ | _ | _ | _) <;> decide
    have hindent : '\x00' ∉ (if givesIndent cs then ['2'] else []) := by split_ifs <;> decide
    simp [hmark, hindent]
  intro h
  rcases List.mem_append.mp h with h | h
  · exact hheader h
  · rcases List.mem_cons.mp h with h | h
    · exact absurd h (by decide)
    · rcases mem_indented (mem_withoutLastBreak h) with h | h
      · exact absurd (List.all_eq_true.mp hw _ h) (by decide)
      · exact absurd h (by decide)

end ParamForm.Yaml
