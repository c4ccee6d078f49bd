import Mathlib.Data.List.TakeDrop
import ParamForm.Proofs.Text.Units
import ParamForm.Yaml.Cursor

/-!
# Steps between tokens

What `Cursor.separation` steps over in a written text: nothing before a token, the spaces after an
indicator, and one line end with the indentation of the next line (`Cursor.below`).
-/

namespace ParamForm.Yaml

/-- A text that no separation steps into: it is empty, or begins neither with a blank or a line end
nor with a comment. -/
def startsToken : List Char → Bool
  | [] => true
  | c :: _ => !isSpacing c && c ≠ '#'

theorem startsToken_cons {c : Char} {cs : List Char} :
    startsToken (c :: cs) = true ↔
      c ≠ ' ' ∧ c ≠ '\t' ∧ c ≠ '\n' ∧ c ≠ '\r' ∧ c ≠ '#' := by
  simp [startsToken, isSpacing, isWhite, isBreak, and_assoc]

theorem startsToken_append {as bs : List Char} (h : startsToken as = true) (hne : as ≠ []) :
    startsToken (as ++ bs) = true := by
  cases as with
  | nil => exact absurd rfl hne
  | cons a as => exact h

section StartsToken

variable {content : List Char} (h : startsToken content = true)
include h

theorem startsWith_isWhite_of_startsToken : startsWith isWhite content = false := by
  cases content with
  | nil => rfl
  | cons c cs =>
    rw [startsToken_cons] at h
    simp [startsWith, isWhite, h]

theorem startsWith_isBreak_of_startsToken : startsWith isBreak content = false := by
  cases content with
  | nil => rfl
  | cons c cs =>
    rw [startsToken_cons] at h
    simp [startsWith, isBreak, h]

theorem startsWith_comment_of_startsToken : startsWith (· = '#') content = false := by
  cases content with
  | nil => rfl
  | cons c cs =>
    rw [startsToken_cons] at h
    simp [startsWith, h]

theorem startsWith_space_of_startsToken : startsWith (· = ' ') content = false := by
  cases content with
  | nil => rfl
  | cons c cs =>
    rw [startsToken_cons] at h
    simp [startsWith, h]

end StartsToken

theorem takeWhile_append_of_startsWith {p : Char → Bool} {run rest : List Char}
    (hrun : run.all p = true) (hrest : startsWith p rest = false) :
    (run ++ rest).takeWhile p = run := by
  rw [List.takeWhile_append_of_pos (by simpa using hrun)]
  cases rest with
  | nil => simp
  | cons c cs =>
    rw [startsWith] at hrest
    simp [hrest]

theorem dropWhile_append_of_startsWith {p : Char → Bool} {run rest : List Char}
    (hrun : run.all p = true) (hrest : startsWith p rest = false) :
    (run ++ rest).dropWhile p = rest := by
  rw [List.dropWhile_append_of_pos (by simpa using hrun)]
  cases rest with
  | nil => simp
  | cons c cs =>
    rw [startsWith] at hrest
    simp [hrest]

theorem span_append_of_startsWith {p : Char → Bool} {run rest : List Char}
    (hrun : run.all p = true) (hrest : startsWith p rest = false) :
    (run ++ rest).span p = (run, rest) := by
  rw [List.span_eq_takeWhile_dropWhile, takeWhile_append_of_startsWith hrun hrest,
    dropWhile_append_of_startsWith hrun hrest]

theorem all_replicate_space {p : Char → Bool} (h : p ' ' = true) (n : Nat) :
    (List.replicate n ' ').all p = true := by
  simp [List.all_replicate, h]

namespace Cursor

variable {c : Cursor} {run rest content : List Char}

@[simp]
theorem rest_past : (c.past run rest).rest = rest := rfl

@[simp]
theorem position_past : (c.past run rest).position = c.position + Text.width run := rfl

@[simp]
theorem line_past : (c.past run rest).line = c.line := rfl

@[simp]
theorem lineStart_past : (c.past run rest).lineStart = c.lineStart := rfl

@[simp]
theorem past_past {run' rest' : List Char} :
    (c.past run rest).past run' rest' = c.past (run ++ run') rest' := by
  simp [past, Nat.add_assoc]

theorem past_nil (h : c.rest = rest) : c.past [] rest = c := by
  subst h
  rfl

theorem next_eq {ch : Char} (h : c.rest = ch :: rest) : c.next = c.past [ch] rest := by
  simp [next, h]

@[simp]
theorem bind_none (v : Linked) : c.bind none v = c := rfl

@[simp]
theorem bindOpen_none (v : Collection) : c.bindOpen none v = (none, c) := rfl

@[simp]
theorem revise_none (v : Collection) : c.revise none v = c := rfl

@[simp]
theorem close_none (v : Collection) : c.close none none v = c := rfl

theorem skip_append {p : Char → Bool} (h : c.rest = run ++ rest) (hrun : run.all p = true)
    (hrest : startsWith p rest = false) : c.skip p = c.past run rest := by
  rw [skip, h, takeWhile_append_of_startsWith hrun hrest,
    dropWhile_append_of_startsWith hrun hrest]

theorem skip_of_startsWith {p : Char → Bool} (h : startsWith p c.rest = false) : c.skip p = c := by
  rw [skip_append (List.nil_append _).symm rfl h, past_nil rfl]

/-- Blanks that are all spaces are stepped over without a mark of a tab. -/
theorem skipWhite_spaces {n : Nat} (h : c.rest = List.replicate n ' ' ++ rest)
    (hrest : startsWith isWhite rest = false) :
    c.skipWhite = c.past (List.replicate n ' ') rest := by
  have hwhite : (List.replicate n ' ').all isWhite = true := all_replicate_space rfl n
  have htake : c.rest.takeWhile isWhite = List.replicate n ' ' := by
    rw [h, takeWhile_append_of_startsWith hwhite hrest]
  simp only [skipWhite, htake, skip_append h hwhite hrest]
  simp [past]

theorem skipWhite_of_startsWith (h : startsWith isWhite c.rest = false) : c.skipWhite = c := by
  rw [skipWhite_spaces (n := 0) rfl h]
  exact past_nil rfl

/-- The first place after a line end and an indentation. -/
def below (c : Cursor) (indent : Nat) (content : List Char) : Cursor :=
  { c with
    rest := content
    position := c.position + 1 + indent
    line := c.line + 1
    lineStart := c.position + 1
    indent := indent
    tab := none }

theorem lineBreak?_of_startsWith (h : startsWith isBreak c.rest = false) :
    c.lineBreak? = none := by
  unfold lineBreak?
  split <;> simp_all [startsWith, isBreak]

theorem newLine?_of_startsWith (h : startsWith isBreak c.rest = false) : c.newLine? = none := by
  rw [newLine?, lineBreak?_of_startsWith h]
  rfl

theorem lineBreak?_newline (h : c.rest = '\n' :: rest) :
    c.lineBreak? = some { c.below 0 rest with indent := c.indent } := by
  simp [lineBreak?, h, below, past, Text.charWidth]

theorem newLine?_below {k : Nat} (h : c.rest = '\n' :: (List.replicate k ' ' ++ content))
    (hc : startsToken content = true) : c.newLine? = some (c.below k content) := by
  have hspace : startsWith (· = ' ') content = false := startsWith_space_of_startsToken hc
  have hall : (List.replicate k ' ').all (· = ' ') = true := all_replicate_space rfl k
  rw [newLine?, lineBreak?_newline h, Option.map_some]
  rw [skip_append (rfl : _ = List.replicate k ' ' ++ content) hall hspace]
  simp only [below, past, takeWhile_append_of_startsWith hall hspace, List.length_replicate,
    Text.width_spaces]

theorem separationIn_token (comments : Bool) (h : startsToken c.rest = true) (steps : Nat) :
    separationIn comments c steps = (0, c) := by
  cases steps with
  | zero => rfl
  | succ steps =>
    have hwhite := skipWhite_of_startsWith (startsWith_isWhite_of_startsToken h)
    have hcomment : c.skipComment = c := by
      rw [skipComment, startsWith_comment_of_startsToken h]
      rfl
    have hline := newLine?_of_startsWith (startsWith_isBreak_of_startsToken h)
    cases comments <;> simp [separationIn, hwhite, hcomment, hline]

theorem separation_token (comments : Bool) (h : startsToken c.rest = true) :
    c.separation comments = (0, c) :=
  separationIn_token comments h _

theorem token_of_startsToken (h : startsToken c.rest = true) : c.token = c := by
  rw [token, separation_token true h]

/-- Spaces on the line are stepped over without a line end. -/
theorem separation_space (comments : Bool) {n : Nat}
    (h : c.rest = List.replicate n ' ' ++ content) (hc : startsToken content = true) :
    c.separation comments = (0, c.past (List.replicate n ' ') content) := by
  have hwhite := skipWhite_spaces h (startsWith_isWhite_of_startsToken hc)
  have hcomment : (c.past (List.replicate n ' ') content).skipComment
      = c.past (List.replicate n ' ') content := by
    rw [skipComment, rest_past, startsWith_comment_of_startsToken hc]
    rfl
  have hline : (c.past (List.replicate n ' ') content).newLine? = none :=
    newLine?_of_startsWith (startsWith_isBreak_of_startsToken hc)
  cases comments <;> simp [separation, separationIn, hwhite, hcomment, hline]

theorem separation_below (comments : Bool) {k : Nat}
    (h : c.rest = '\n' :: (List.replicate k ' ' ++ content)) (hc : startsToken content = true) :
    c.separation comments = (1, c.below k content) := by
  have hwhite : c.skipWhite = c := skipWhite_of_startsWith (by simp [h, startsWith, isWhite])
  have hcomment : c.skipComment = c := by
    simp [skipComment, h, startsWith]
  have hline := newLine?_below h hc
  have hthen : separationIn comments (c.below k content) c.rest.length
      = (0, c.below k content) := separationIn_token comments hc _
  cases comments <;> simp [separation, separationIn, hwhite, hcomment, hline, hthen]

theorem token_below {k : Nat} (h : c.rest = '\n' :: (List.replicate k ' ' ++ content))
    (hc : startsToken content = true) : c.token = c.below k content := by
  rw [token, separation_below true h hc]

/-- A place that stands after the beginning of its line is at no document mark. -/
theorem atMark_eq_false (h : c.lineStart < c.position) : c.atMark = false := by
  simp only [atMark, Bool.and_eq_false_iff, decide_eq_false_iff_not]
  exact .inl (Nat.ne_of_gt h)

end Cursor

/-- A place at the first character of a line that is no space: what is left, the indentation and
the column agree, and there is no tab before it. -/
structure Cursor.AtLine (c : Cursor) (k : Nat) (content : List Char) : Prop where
  rest : c.rest = content
  indent : c.indent = k
  position : c.position = c.lineStart + k
  tab : c.tab = none

theorem Cursor.atLine_below (c : Cursor) (k : Nat) (content : List Char) :
    (c.below k content).AtLine k content where
  rest := rfl
  indent := rfl
  position := rfl
  tab := rfl

theorem Cursor.AtLine.column {c : Cursor} {k : Nat} {content : List Char}
    (h : c.AtLine k content) : c.column = k := by
  rw [Cursor.column, h.position, Nat.add_sub_cancel_left]

end ParamForm.Yaml
