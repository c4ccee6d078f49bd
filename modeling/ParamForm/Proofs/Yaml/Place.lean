import ParamForm.Proofs.Yaml.Cursor

/-!
# Places of a text

A cursor is a place of a text if what is left is a rest of the text, and the positions count the
characters before it and before its line (`Cursor.Within`). Every step between tokens leads from a
place of a text to another one. Where a document mark begins a line, it does so in the text
(`Cursor.Within.hasMark`). A reading goes on from place to place until it is done, or
ends at a problem; only where a tag may stand can it end in another way (`Ends`). `Yields` tells of
what it comes to if it is done.
-/

namespace ParamForm.Yaml

/-- Whether a run is one of whole lines. -/
def endsLine (run : List Char) : Prop :=
  run = [] ∨ ∃ front ch, run = front ++ [ch] ∧ isBreak ch = true

/-- Whether a line of a text begins with a document mark. -/
def HasMark (text : List Char) : Prop :=
  ∃ before rest, text = before ++ rest ∧ endsLine before ∧ startsMark rest = true

namespace Cursor

/-- Whether a cursor is a place of a text. -/
def Within (text : List Char) (c : Cursor) : Prop :=
  ∃ before lines line, text = before ++ c.rest ∧ before = lines ++ line ∧ endsLine lines
    ∧ c.position = Text.width before ∧ c.lineStart = Text.width lines

namespace Within

variable {text : List Char} {c d : Cursor}

theorem rest_subset (h : c.Within text) : c.rest ⊆ text := by
  obtain ⟨before, _, _, htext, -⟩ := h
  rw [htext]
  exact List.subset_append_right _ _

theorem past (h : c.Within text) (run : List Char) {rest : List Char}
    (hrest : c.rest = run ++ rest) : (c.past run rest).Within text := by
  obtain ⟨before, lines, line, htext, hbefore, hends, hposition, hstart⟩ := h
  refine ⟨before ++ run, lines, line ++ run, ?_, ?_, hends, ?_, hstart⟩
  · rw [htext, hrest, Cursor.past, List.append_assoc]
  · rw [hbefore, List.append_assoc]
  · rw [Text.width_append, ← hposition]
    rfl

/-- After a run that ends a line, a line begins. -/
theorem entered {run rest : List Char} (h : c.Within text) (hrest : c.rest = run ++ rest)
    (hends : ∃ front ch, run = front ++ [ch] ∧ isBreak ch = true) :
    ({ c.past run rest with
      line := c.line + 1, lineStart := (c.past run rest).position, tab := none } : Cursor).Within
        text := by
  obtain ⟨before, _, _, htext, -, -, hposition, -⟩ := h
  obtain ⟨front, ch, rfl, hch⟩ := hends
  have hwidth : c.position + Text.width (front ++ [ch]) = Text.width (before ++ (front ++ [ch])) :=
    by rw [Text.width_append before, hposition]
  refine ⟨before ++ (front ++ [ch]), before ++ (front ++ [ch]), [], ?_, (List.append_nil _).symm,
    .inr ⟨before ++ front, ch, (List.append_assoc _ _ _).symm, hch⟩, hwidth, hwidth⟩
  change text = before ++ (front ++ [ch]) ++ rest
  rw [htext, hrest, List.append_assoc before]

theorem next (h : c.Within text) : c.next.Within text := by
  unfold Cursor.next
  split
  · exact h
  · exact h.past _ (by assumption)

theorem skip (h : c.Within text) (p : Char → Bool) : (c.skip p).Within text :=
  h.past _ List.takeWhile_append_dropWhile.symm

theorem past_of_isPrefix {run : List Char} (h : c.Within text) (hrun : run <+: c.rest) :
    (c.past run (c.rest.drop run.length)).Within text := by
  refine h.past run ?_
  conv_lhs => rw [← List.take_append_drop run.length c.rest]
  rw [← List.prefix_iff_eq_take.mp hrun]

theorem lineBreak (h : c.Within text) (hd : c.lineBreak? = some d) : d.Within text := by
  unfold lineBreak? at hd
  split at hd
  · obtain rfl := Option.some.inj hd
    exact h.entered (by assumption) ⟨['\r'], '\n', rfl, rfl⟩
  · obtain rfl := Option.some.inj hd
    exact h.entered (by assumption) ⟨[], '\r', rfl, rfl⟩
  · obtain rfl := Option.some.inj hd
    exact h.entered (by assumption) ⟨[], '\n', rfl, rfl⟩
  · cases hd

theorem skipWhite (h : c.Within text) : c.skipWhite.Within text :=
  h.skip isWhite

theorem skipComment (h : c.Within text) : c.skipComment.Within text := by
  unfold Cursor.skipComment
  split_ifs
  · exact h.skip _
  · exact h

theorem newLine (h : c.Within text) (hd : c.newLine? = some d) : d.Within text := by
  obtain ⟨e, he, rfl⟩ := Option.map_eq_some_iff.mp hd
  exact (h.lineBreak he).skip (· = ' ')

theorem separationIn (h : c.Within text) (comments : Bool) (steps : Nat) :
    (c.separationIn comments steps).2.Within text := by
  induction steps generalizing c with
  | zero => exact h
  | succ steps ih =>
    have hblank : (if comments then c.skipWhite.skipComment else c.skipWhite).Within text := by
      split_ifs
      · exact h.skipWhite.skipComment
      · exact h.skipWhite
    rw [Cursor.separationIn]
    split
    · exact hblank
    · rename_i e he
      exact ih (hblank.newLine he)

theorem separation (h : c.Within text) (comments : Bool) :
    (c.separation comments).2.Within text :=
  h.separationIn comments _

theorem token (h : c.Within text) : c.token.Within text :=
  h.separation true

theorem bind (h : c.Within text) (anchor : Option String) (v : Linked) :
    (c.bind anchor v).Within text := by
  cases anchor with
  | none => exact h
  | some name => exact h

theorem bindOpen (h : c.Within text) (anchor : Option String) (v : Collection) :
    (c.bindOpen anchor v).2.Within text := by
  cases anchor with
  | none => exact h
  | some name => exact h

theorem revise (h : c.Within text) (slot : Option Nat) (v : Collection) :
    (c.revise slot v).Within text := by
  cases slot with
  | none => exact h
  | some n => exact h

theorem close (h : c.Within text) (slot : Option Nat) (anchor : Option String) (v : Collection) :
    (c.close slot anchor v).Within text :=
  (h.revise slot v).bind anchor v.value

/-- A document mark that begins a line at a place of a text begins a line of the text. -/
theorem hasMark (h : c.Within text) (hmark : c.atMark = true) : HasMark text := by
  obtain ⟨before, lines, line, htext, hbefore, hends, hposition, hstart⟩ := h
  rw [atMark, Bool.and_eq_true, decide_eq_true_eq, hposition, hstart, hbefore,
    Text.width_append] at hmark
  obtain rfl : line = [] := by
    cases line with
    | nil => rfl
    | cons ch line =>
      have hpos := Text.charWidth_pos ch
      rw [Text.width_cons] at hmark
      omega
  rw [List.append_nil] at hbefore
  exact ⟨before, c.rest, htext, hbefore ▸ hends, hmark.2⟩

end Within

end Cursor

/-- A reading of a text that leads to something good, or ends: at a problem, or, where a tag may
stand in the text, for want of a text. -/
def Ends {α : Type} (text : List Char) (good : α → Prop) : Except Fault α → Prop
  | .ok a => good a
  | .error fault => (∃ p, fault = .problem p) ∨ (fault = .noText ∧ '!' ∈ text)

namespace Ends

variable {α β : Type} {text : List Char} {good : α → Prop} {good' : β → Prop} {r : Except Fault α}

theorem fail (c : Cursor) (reason : Reason) : Ends text good (c.fail reason) :=
  .inl ⟨_, rfl⟩

theorem bind {f : α → Except Fault β} (h : Ends text good r)
    (hf : ∀ a, good a → Ends text good' (f a)) : Ends text good' (r >>= f) := by
  cases r with
  | ok a => exact hf a h
  | error fault => exact h

theorem map {f : α → β} (h : Ends text good r) (hf : ∀ a, good a → good' (f a)) :
    Ends text good' (r.map f) := by
  cases r with
  | ok a => exact hf a h
  | error fault => exact h

end Ends

/-- Whether a reading comes to nothing that is not good. -/
def Yields {α : Type} (good : α → Prop) (r : Except Fault α) : Prop :=
  ∀ a, r = .ok a → good a

namespace Yields

variable {α β : Type} {good : α → Prop} {good' : β → Prop} {r : Except Fault α}

theorem ok {a : α} (h : good a) : Yields good (.ok a : Except Fault α) := by
  rintro _ ⟨⟩
  exact h

theorem fail (c : Cursor) (reason : Reason) : Yields good (c.fail reason) :=
  nofun

theorem anything (r : Except Fault α) : Yields (fun _ => True) r :=
  fun _ _ => trivial

theorem bind {f : α → Except Fault β} (h : Yields good r)
    (hf : ∀ a, good a → Yields good' (f a)) : Yields good' (r >>= f) := by
  cases r with
  | ok a => exact hf a (h a rfl)
  | error fault => nofun

theorem map {f : α → β} (h : Yields good r) (hf : ∀ a, good a → good' (f a)) :
    Yields good' (r.map f) := by
  cases r with
  | ok a => exact .ok (hf a (h a rfl))
  | error fault => nofun

end Yields

theorem Ends.yields {α : Type} {text : List Char} {good : α → Prop} {r : Except Fault α}
    (h : Ends text good r) : Yields good r := by
  rintro a rfl
  exact h

/-- Whether nothing but good comes of a reading of something that may be there. -/
abbrev Yields? {α : Type} (good : α → Prop) : Except Fault (Option α) → Prop :=
  Yields fun out => ∀ found ∈ out, good found

theorem Yields.found {α : Type} {good : α → Prop} {a : α} (h : good a) :
    Yields? good (.ok (some a)) := by
  rintro _ ⟨⟩ _ ⟨⟩
  exact h

theorem Yields.missing {α : Type} {good : α → Prop} : Yields? good (.ok none) := by
  rintro _ ⟨⟩ _ ⟨⟩

/-- A reading that leads to a place of the text, or ends. -/
abbrev EndsAt {α : Type} (text : List Char) : Except Fault (α × Cursor) → Prop :=
  Ends text fun out => out.2.Within text

/-- A reading of something that may be there, which then leads to a place of the text. -/
abbrev EndsAt? {α : Type} (text : List Char) : Except Fault (Option (α × Cursor)) → Prop :=
  Ends text fun out => ∀ found ∈ out, found.2.Within text

end ParamForm.Yaml
