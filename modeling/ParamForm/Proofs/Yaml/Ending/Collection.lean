import ParamForm.Proofs.Yaml.Place
import ParamForm.Yaml.BlockMapping
import ParamForm.Yaml.FlowCollection

/-!
# Readings of collections end

Where the reader of the nodes below leads from a place of a text to another one, or ends, so do the
readers of flow collections, block sequences and block mappings.
-/

namespace ParamForm.Yaml

variable {text : List Char} {c : Cursor}

theorem ends_charge (h : c.Within text) (cost : Nat) :
    Ends text (fun d => d.Within text) (c.charge cost) := by
  unfold Cursor.charge
  split
  · exact .fail _ _
  · exact h

theorem ends_mergeAll (h : c.Within text) (m : MappingState) (sources : List Linked) :
    EndsAt text (m.mergeAll c sources) := by
  induction sources generalizing c m with
  | nil => exact h
  | cons v sources ih =>
    rw [MappingState.mergeAll]
    split
    · exact .fail _ _
    · exact (ends_charge h _).bind fun d hd => ih hd _

theorem ends_merge (h : c.Within text) (m : MappingState) (v : Linked) :
    EndsAt text (m.merge c v) := by
  unfold MappingState.merge
  split
  · split
    · exact .fail _ _
    · exact ends_mergeAll h _ _
  · exact ends_mergeAll h _ _

theorem ends_store (m : MappingState) (key v : Linked) (mark : Mark) (c : Cursor) :
    Ends text (fun _ => True) (m.store key v mark c) := by
  unfold MappingState.store
  split
  · exact .fail _ _
  · split
    · exact .fail _ _
    · trivial

theorem ends_storeTagged (h : c.Within text) (m : MappingState) (tag : Option String)
    (key v : Linked) (mark : Mark) : EndsAt text (m.storeTagged tag key v mark c) := by
  unfold MappingState.storeTagged
  split
  · exact ends_merge h m v
  · exact (ends_store m key v mark c).map fun _ _ => h

section Collections

variable {child : Reader} (hchild : ∀ r c, c.Within text → EndsAt text (child r c))

include hchild

theorem ends_flowEntry (h : c.Within text) (floor : Nat) :
    EndsAt text (flowEntry child floor c) := by
  unfold flowEntry
  simp only
  generalize hexplicit : (startsWith (· = '?') c.rest && startsWith isSpacing (c.rest.drop 1))
    = explicit
  have hkey : (if explicit then c.next.token else c).Within text := by
    split_ifs
    · exact h.next.token
    · exact h
  refine (hchild _ _ hkey).bind fun out hout => ?_
  have hd := Cursor.Within.token hout
  have hvalue := hchild ⟨floor + 1, .flowIn, false, true⟩ _ hd.next.token
  split_ifs
  · exact hvalue.bind fun _ hvalue => hvalue
  · exact hd
  · exact hvalue.bind fun _ hvalue => hvalue
  · exact hd

theorem ends_flowEntries {α : Type} (h : c.Within text) (floor : Nat) (close : Char)
    {add : α → FlowEntry → Cursor → Except Fault (α × Cursor)}
    (hadd : ∀ acc entry c, c.Within text → EndsAt text (add acc entry c)) (acc : α)
    (entries : Nat) : EndsAt text (flowEntries child floor close add acc c entries) := by
  induction entries generalizing c acc with
  | zero => exact .fail _ _
  | succ entries ih =>
    rw [flowEntries]
    split
    · exact .fail _ _
    · have htoken := h.token
      simp only
      split_ifs
      · exact htoken.next
      · exact .fail _ _
      · refine (ends_flowEntry hchild htoken floor).bind fun entry hentry => ?_
        refine (hadd _ _ _ hentry).bind fun added hadded => ?_
        have he := Cursor.Within.token hadded
        split
        · exact .fail _ _
        · split_ifs
          · exact ih he.next _
          · exact he.next
          · exact .fail _ _

omit hchild in
theorem ends_addPair (slot : Option Nat) (m : MappingState) (entry : FlowEntry)
    (h : c.Within text) : EndsAt text (addPair slot m entry c) :=
  (ends_storeTagged h _ _ _ _ _).bind fun _ hout => Cursor.Within.revise hout _ _

omit hchild in
theorem ends_addElement (slot : Option Nat) (items : List Linked) (entry : FlowEntry)
    (h : c.Within text) : EndsAt text (addElement slot items entry c) := by
  unfold addElement
  split
  · refine (ends_storeTagged h _ _ _ _ _).bind fun out hout => ?_
    exact Cursor.Within.revise hout _ _
  · exact h.revise _ _

theorem ends_flowCollection? (h : c.Within text) (floor : Nat) (anchor : Option String) :
    EndsAt? text (flowCollection? child floor anchor c) := by
  unfold flowCollection?
  simp only
  split
  · refine (ends_flowEntries hchild (h.next.bindOpen _ _) _ _
      (fun _ _ _ => ends_addElement _ _ _) _ _).bind fun out hout => ?_
    rintro _ ⟨⟩
    exact Cursor.Within.close hout _ _ _
  · refine (ends_flowEntries hchild (h.next.bindOpen _ _) _ _
      (fun _ _ _ => ends_addPair _ _ _) _ _).bind fun out hout => ?_
    rintro _ ⟨⟩
    exact Cursor.Within.close hout _ _ _
  · nofun

omit hchild in
theorem ends_checkTab (c : Cursor) : Ends text (fun _ => True) (checkTab c) := by
  unfold checkTab
  split
  · exact .fail _ _
  · trivial

theorem ends_sequenceEntries (h : c.Within text) (column : Nat) (slot : Option Nat)
    (items : List Linked) (entries : Nat) :
    EndsAt text (sequenceEntries child column slot items c entries) := by
  induction entries generalizing c items with
  | zero => exact h
  | succ entries ih =>
    have hrevised := h.revise slot (.list items.reverse)
    rw [sequenceEntries]
    simp only
    split
    · exact hrevised
    · refine (ends_checkTab _).bind fun _ _ => ?_
      split
      · exact hrevised
      · have hd := hrevised.next.separation true
        split
        · exact ih hd _
        · refine (hchild _ _ hd).bind fun out hout => ?_
          have he := Cursor.Within.token hout
          split_ifs
          · exact .fail _ _
          · exact he
          · exact ih he _

theorem ends_blockSequence? (h : c.Within text) (anchor : Option String) :
    EndsAt? text (blockSequence? child anchor c) := by
  unfold blockSequence?
  split
  · refine (ends_sequenceEntries hchild (h.bindOpen _ _) _ _ _ _).bind fun out hout => ?_
    rintro _ ⟨⟩
    exact Cursor.Within.close hout _ _ _
  · nofun

omit hchild in
theorem ends_settle (h : c.Within text) (b : BlockMapping) : EndsAt text (b.settle c) := by
  unfold BlockMapping.settle
  split
  · exact h
  · exact (ends_store _ _ _ _ _).bind fun _ _ => h.revise _ _

omit hchild in
theorem ends_finish (h : c.Within text) (b : BlockMapping) : EndsAt text (b.finish c) :=
  (ends_settle h b).bind fun _ hout => hout

theorem ends_explicitKey (h : c.Within text) (column : Nat) (b : BlockMapping) :
    EndsAt text (b.explicitKey child column c) := by
  refine (ends_settle h b).bind fun out hout => ?_
  exact (hchild _ _ (Cursor.Within.next hout)).bind fun _ hnode => hnode

theorem ends_explicitValue (h : c.Within text) (column : Nat) (b : BlockMapping) (key : Linked) :
    EndsAt text (b.explicitValue child column key c) := by
  refine (hchild _ _ h.next).bind fun out hout => ?_
  refine (ends_store _ _ _ _ _).bind fun _ _ => ?_
  exact Cursor.Within.revise hout _ _

theorem ends_implicitPair (h : c.Within text) (column floor : Nat) (b : BlockMapping) :
    EndsAt text (b.implicitPair child column floor c) := by
  unfold BlockMapping.implicitPair
  refine (hchild _ _ h).bind fun out hout => ?_
  have hskip := Cursor.Within.skip hout isWhite
  simp only
  split_ifs
  · exact hout
  · exact .fail _ _
  · refine (ends_settle hskip.next _).bind fun settled hsettled => ?_
    refine (hchild _ _ hsettled).bind fun value hvalue => ?_
    refine (ends_storeTagged hvalue _ _ _ _ _).bind fun stored hstored => ?_
    exact Cursor.Within.revise hstored _ _
  · exact .fail _ _
  · exact hskip
  · exact .fail _ _
  · exact hout

theorem ends_step (h : c.Within text) (column floor : Nat) (b : BlockMapping) :
    EndsAt text (b.step child column floor c) := by
  unfold BlockMapping.step
  split_ifs
  · exact ends_explicitKey hchild h column b
  · split
    · exact ends_explicitValue hchild h column b _
    · exact .fail _ _
  · exact ends_implicitPair hchild h column floor b

/-- Unless an explicit key waits, the check for a tab comes before a step. -/
theorem ends_readMapping (h : c.Within text) (column floor : Nat) (b : BlockMapping)
    (steps : Nat) : EndsAt text (b.read child column floor c steps) := by
  induction steps generalizing c b with
  | zero => exact ends_finish h b
  | succ steps ih =>
    rw [BlockMapping.read]
    simp only
    split
    · exact ends_finish h b
    · split
      case' isTrue => refine (ends_checkTab c).bind fun _ _ => ?_
      all_goals
        refine (ends_step hchild h column floor b).bind fun out hout => ?_
        split
        · exact ends_finish hout _
        · exact hout
        · have htoken := Cursor.Within.token hout
          split_ifs
          · exact .fail _ _
          · exact ends_finish htoken _
          · exact ih htoken _

theorem ends_blockMapping (h : c.Within text) (floor : Nat) (anchor : Option String) :
    EndsAt text (blockMapping child floor anchor c) := by
  unfold blockMapping
  refine (ends_readMapping hchild (h.bindOpen _ _) _ _ _ _).bind fun out hout => ?_
  simp only
  split
  · exact Cursor.Within.close hout _ _ _
  · exact hout

end Collections

end ParamForm.Yaml
