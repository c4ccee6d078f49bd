import ParamForm.Proofs.Yaml.Place
import ParamForm.Yaml.BlockScalar
import ParamForm.Yaml.Property
import ParamForm.Yaml.Quoted

/-!
# Readings of scalars end

Reading a scalar, an anchor or an alias leads from a place of a text to another one, or ends.
-/

namespace ParamForm.Yaml

variable {text : List Char} {c : Cursor}

theorem plainRun_isPrefix (inFlow blankBefore : Bool) (cs : List Char) :
    plainRun inFlow blankBefore cs <+: cs := by
  induction cs generalizing blankBefore with
  | nil => exact List.prefix_rfl
  | cons ch cs ih =>
    rw [plainRun]
    split
    · exact List.nil_prefix
    · exact List.cons_prefix_cons.mpr ⟨rfl, ih _⟩

theorem trimmedEnd_isPrefix (run : List Char) : trimmedEnd run <+: run := by
  unfold trimmedEnd
  have h := List.dropWhile_suffix (l := run.reverse) isWhite
  have := List.reverse_prefix.mpr h
  rwa [List.reverse_reverse] at this

theorem ends_checkPrintable (run : List Char) (c : Cursor) :
    Ends text (fun _ => True) (checkPrintable run c) := by
  unfold checkPrintable
  split
  · trivial
  · exact .fail _ _

theorem ends_plainLines (h : c.Within text) (indent : Nat) (inFlow : Bool) (lines : Nat) :
    EndsAt text (plainLines indent inFlow c lines) := by
  induction lines generalizing c with
  | zero => exact h
  | succ lines ih =>
    have hrun := plainRun_isPrefix inFlow true c.rest
    have hended := h.past_of_isPrefix hrun
    rw [plainLines]
    split
    · have hd := hended.separation false
      simp only
      split
      · refine (ends_checkPrintable _ _).bind fun _ _ => ?_
        split
        · refine (ih hd).bind fun out hout => ?_
          exact hout
        · exact hd
      · refine (ends_checkPrintable _ _).bind fun _ _ => ?_
        exact h.past_of_isPrefix ((trimmedEnd_isPrefix _).trans hrun)
    · exact (ends_checkPrintable _ _).bind fun _ _ => hended

theorem ends_plain? (h : c.Within text) (indent : Nat) (inFlow : Bool) :
    EndsAt? text (plain? indent inFlow c) := by
  unfold plain?
  split
  · refine (ends_plainLines h _ _ _).map fun out hout => ?_
    rintro _ ⟨⟩
    exact hout
  · nofun

theorem ends_blockIndicators (h : c.Within text) (floor : Nat) (header : BlockHeader)
    (steps : Nat) :
    EndsAt text (blockIndicators floor header c steps) := by
  induction steps generalizing c header with
  | zero => exact h
  | succ steps ih =>
    rw [blockIndicators]
    split
    · exact h
    · split_ifs
      · exact .fail _ _
      · exact ih h.next _
      · exact ih h.next _
      · exact .fail _ _
      · exact .fail _ _
      · exact ih h.next _
      · exact h

theorem within_enter (h : c.Within text) (s : BlockState) : (s.enter c).2.Within text := by
  have hdrop (n : Nat) : (c.past (c.rest.take n) (c.rest.drop n)).Within text :=
    h.past _ (List.take_append_drop n c.rest).symm
  unfold BlockState.enter
  exact hdrop _

theorem ends_blockLines (h : c.Within text) (folding : Bool) (chomping : Chomping) (s : BlockState)
    (lines : Nat) : EndsAt text (blockLines folding chomping s c lines) := by
  induction lines generalizing c s with
  | zero => exact h
  | succ lines ih =>
    rw [blockLines]
    split
    · exact h
    · split
      · exact .fail _ _
      · rename_i d hd
        have he := within_enter (h.lineBreak hd) s
        simp only
        split_ifs
        · exact ih he _
        · exact .fail _ _
        · exact he
        · have hended := he.past_of_isPrefix (List.takeWhile_prefix fun ch => !isBreak ch)
          refine (ends_checkPrintable _ _).bind fun _ _ => ?_
          exact (ih hended _).bind fun out hout => hout

theorem ends_block? (h : c.Within text) (floor : Nat) : EndsAt? text (block? floor c) := by
  unfold block?
  split
  · split
    · refine (ends_blockIndicators h.next _ _ _).bind fun out hout => ?_
      have hheader : (if startsWith isWhite out.2.rest then (out.2.skip isWhite).skipComment
          else out.2).Within text := by
        split_ifs
        · exact (hout.skip _).skipComment
        · exact hout
      refine (ends_blockLines hheader _ _ _ _).map fun found hfound => ?_
      rintro _ ⟨⟩
      exact hfound
    · nofun
  · nofun

theorem ends_checkQuotable (run : List Char) (c : Cursor) :
    Ends text (fun _ => True) (checkQuotable run c) := by
  unfold checkQuotable
  split
  · trivial
  · exact .fail _ _

theorem ends_singleParts (h : c.Within text) (parts : Nat) :
    EndsAt text (singleParts c parts) := by
  induction parts generalizing c with
  | zero => exact .fail _ _
  | succ parts ih =>
    have hsplit := List.span_eq_takeWhile_dropWhile
      (fun ch => ch ≠ '\x27' && !isBreak ch) c.rest
    have hrun := List.takeWhile_append_dropWhile
      (p := fun ch => ch ≠ '\x27' && !isBreak ch) (l := c.rest)
    rw [singleParts]
    split
    · exact .fail _ _
    · simp only [hsplit]
      have hended := h.past _ hrun.symm
      split
      · exact .fail _ _
      · rename_i ch more hmore
        refine (ends_checkQuotable _ _).bind fun _ _ => ?_
        split
        · rename_i hquote
          subst hquote
          split
          · exact (ih (hended.past ['\x27', '\x27'] hmore)).bind fun out hout => hout
          · exact hended.past ['\x27'] hmore
        · have hd := hended.separation false
          exact (ih hd).bind fun out hout => hout

theorem ends_hexDigits (h : c.Within text) (code digits : Nat) :
    EndsAt text (hexDigits code c digits) := by
  induction digits generalizing c code with
  | zero => exact h
  | succ digits ih =>
    rw [hexDigits]
    split
    · exact ih h.next _
    · exact .fail _ _

theorem ends_escape (h : c.Within text) : EndsAt text (escape c) := by
  unfold escape
  split
  · exact .fail _ _
  · split
    · exact h.separation false
    · split
      · exact h.next
      · exact (ends_hexDigits h.next _ _).bind fun out hout => hout
      · exact .fail _ _

theorem ends_doubleParts (h : c.Within text) (parts : Nat) :
    EndsAt text (doubleParts c parts) := by
  induction parts generalizing c with
  | zero => exact .fail _ _
  | succ parts ih =>
    have hsplit := List.span_eq_takeWhile_dropWhile
      (p := fun ch => ch ≠ '"' && ch ≠ '\\' && !isBreak ch) (l := c.rest)
    have hrun := List.takeWhile_append_dropWhile
      (p := fun ch => ch ≠ '"' && ch ≠ '\\' && !isBreak ch) (l := c.rest)
    rw [doubleParts]
    split
    · exact .fail _ _
    · simp only [hsplit]
      have hended := h.past _ hrun.symm
      split
      · exact .fail _ _
      · rename_i ch more hmore
        refine (ends_checkQuotable _ _).bind fun _ _ => ?_
        split_ifs
        · exact hended.past [ch] hmore
        · refine (ends_escape (hended.past [ch] hmore)).bind fun out hout => ?_
          exact (ih hout).bind fun out hout => hout
        · have hd := hended.separation false
          exact (ih hd).bind fun out hout => hout

theorem ends_quoted? (h : c.Within text) : EndsAt? text (quoted? c) := by
  unfold quoted?
  split
  · refine (ends_singleParts h.next _).map fun out hout => ?_
    rintro _ ⟨⟩
    exact hout
  · refine (ends_doubleParts h.next _).map fun out hout => ?_
    rintro _ ⟨⟩
    exact hout
  · nofun

theorem ends_anchorName (h : c.Within text) (empty : Reason) :
    EndsAt text (anchorName c empty) := by
  have hended := h.past_of_isPrefix
    (List.takeWhile_prefix fun ch => !isSpacing ch && !isFlowIndicator ch)
  unfold anchorName
  simp only
  split
  · exact .fail _ _
  · exact hended

theorem ends_anchor? (h : c.Within text) : EndsAt? text (anchor? c) := by
  unfold anchor?
  split
  · refine (ends_anchorName h.next _).map fun out hout => ?_
    rintro _ ⟨⟩
    exact hout
  · nofun

theorem ends_alias? (h : c.Within text) : EndsAt? text (alias? c) := by
  unfold alias?
  split
  · refine (ends_anchorName h.next _).bind fun out hout => ?_
    simp only
    split
    · rintro _ ⟨⟩
      exact Cursor.Within.token hout
    · exact .fail _ _
  · nofun

end ParamForm.Yaml
