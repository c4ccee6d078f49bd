import ParamForm.Proofs.Yaml.Reading

/-!
# Mappings read back

The pairs of a written mapping are read one after another, if each value is read
(`readInside_fieldsText`). A key stands before a colon on its line, or takes a line of its own if it
is long; as its names come in order, each pair is put at the end of those before it.
-/

namespace ParamForm.Yaml

/-- The text of a name as a key. -/
def keyText (name : String) : List Char :=
  scalarText 0 true name.toList

theorem scalarText_key (level : Nat) (cs : List Char) :
    scalarText level true cs = scalarText 0 true cs := by
  have hspec := ofText_spec true cs
  unfold scalarText
  cases hstyle : ScalarStyle.ofText true cs with
  | literal =>
    rw [hstyle] at hspec
    exact absurd hspec.1 (by decide)
  | _ => rfl

theorem inline_keyText (name : String) : Inline (keyText name) (.leaf (.text name)) := by
  have := inline_key 0 name.toList
  rwa [String.ofList_toList] at this

/-- The text of a pair that stands at a level. -/
def fieldText (level : Nat) (f : String × Value) : List Char :=
  pairText level (keyText f.1) (childText level (isLongKey (keyText f.1)) f.2)

theorem fieldsText_eq {level : Nat} {f : String × Value}
    (hf : (nodeText? (level + 1) (isLongKey (keyText f.1)) f.2).isSome = true) (fields : Fields)
    (here : Bool) :
    fieldsText level here (f :: fields)
      = (if here then [] else nextLine level) ++ fieldText level f
        ++ fieldsText level false fields := by
  obtain ⟨name, v⟩ := f
  obtain ⟨text, htext⟩ := Option.isSome_iff_exists.mp hf
  simp only [fieldsText, scalarText_key (level + 1), fieldText, childText, htext]
  rw [keyText] at htext ⊢
  rw [htext]
  rfl

theorem fieldText_short {level : Nat} {f : String × Value} (h : isLongKey (keyText f.1) = false) :
    fieldText level f
      = keyText f.1 ++ ':' :: (gap (childText level false f.2) ++ childText level false f.2) := by
  simp [fieldText, pairText, h, attached_eq]

theorem fieldText_long {level : Nat} {f : String × Value} (h : isLongKey (keyText f.1) = true) :
    fieldText level f
      = '?' :: (gap (keyText f.1) ++ keyText f.1) ++ nextLine level
        ++ ':' :: (gap (childText level true f.2) ++ childText level true f.2) := by
  simp [fieldText, pairText, h, attached_eq]

theorem startsWith_isSpacing_gap (text rest : List Char) :
    startsWith isSpacing (gap text ++ text ++ rest) = true := by
  unfold gap
  split_ifs with h
  · cases text with
    | nil => simp [startsWith] at h
    | cons c cs =>
      simp only [startsWith, decide_eq_true_eq] at h
      subst h
      rfl
  · rfl

theorem startsNode_fieldText (level : Nat) (f : String × Value) :
    StartsNode (fieldText level f) := by
  cases h : isLongKey (keyText f.1) with
  | false =>
    rw [fieldText_short h]
    exact (startsNode_of_opensContent (inline_keyText f.1).opens).append _
  | true =>
    rw [fieldText_long h]
    exact ⟨by simp, rfl, rfl, rfl⟩

theorem startsEntry_fieldText (level : Nat) (f : String × Value) (rest : List Char) :
    startsEntry (fieldText level f ++ rest) = false := by
  cases h : isLongKey (keyText f.1) with
  | false =>
    rw [fieldText_short h, List.append_assoc]
    exact startsEntry_of_opensContent (opensContent_append (inline_keyText f.1).opens _)
  | true =>
    rw [fieldText_long h]
    rfl

theorem fieldsText_below {level : Nat} {fields : Fields}
    (hwritten : ∀ f ∈ fields,
      (nodeText? (level + 1) (isLongKey (keyText f.1)) f.2).isSome = true) (h : fields ≠ []) :
    fieldsText level false fields = nextLine level ++ fieldsText level true fields := by
  obtain ⟨f, fields, rfl⟩ := List.exists_cons_of_ne_nil h
  have hf := hwritten f List.mem_cons_self
  simp [fieldsText_eq hf]

theorem noNull_fieldsText {level : Nat} {fields : Fields}
    (hwritten : ∀ f ∈ fields,
      (nodeText? (level + 1) (isLongKey (keyText f.1)) f.2).isSome = true)
    (h : ∀ f ∈ fields, '\x00' ∉ childText level (isLongKey (keyText f.1)) f.2) (here : Bool) :
    '\x00' ∉ fieldsText level here fields := by
  induction fields generalizing here with
  | nil => simp [fieldsText]
  | cons f fields ih =>
    have hf := h f List.mem_cons_self
    have ih := ih (fun g hg => hwritten g (List.mem_cons_of_mem _ hg))
      (fun g hg => h g (List.mem_cons_of_mem _ hg)) false
    have hgap (text : List Char) : '\x00' ∉ gap text := by
      unfold gap
      split_ifs <;> decide
    have hfield : '\x00' ∉ fieldText level f := by
      cases hlong : isLongKey (keyText f.1) with
      | false =>
        rw [hlong] at hf
        simp [fieldText_short hlong, (inline_keyText f.1).noNull, hgap, hf]
      | true =>
        rw [hlong] at hf
        simp [fieldText_long hlong, (inline_keyText f.1).noNull, hgap, hf, nextLine]
    rw [fieldsText_eq (hwritten f List.mem_cons_self)]
    cases here <;> simp [nextLine, hfield, ih]

theorem length_le_fieldsText (level : Nat) {fields : Fields}
    (hwritten : ∀ f ∈ fields,
      (nodeText? (level + 1) (isLongKey (keyText f.1)) f.2).isSome = true) :
    2 * fields.length ≤ (fieldsText level true fields).length := by
  induction fields with
  | nil => exact Nat.zero_le _
  | cons f fields ih =>
    have ih := ih fun g hg => hwritten g (List.mem_cons_of_mem _ hg)
    have hfield : 2 ≤ (fieldText level f).length := by
      have hkey := List.length_pos_iff.mpr (ne_nil_of_opensContent (inline_keyText f.1).opens)
      cases h : isLongKey (keyText f.1) with
      | false =>
        rw [fieldText_short h, List.length_append, List.length_cons]
        omega
      | true =>
        rw [fieldText_long h]
        simp only [List.length_append, List.length_cons]
        omega
    rw [fieldsText_eq (hwritten f List.mem_cons_self)]
    by_cases hfields : fields = []
    · subst hfields
      simp only [List.length_append, List.length_cons, List.length_nil, if_true]
      omega
    · rw [fieldsText_below (fun g hg => hwritten g (List.mem_cons_of_mem _ hg)) hfields]
      simp only [List.length_append, List.length_cons, List.length_nil, if_true]
      omega

/-- A name that comes after those that were stored is stored at the end. -/
theorem MappingState.store_of_ordered {fields : Fields} {f : String × Value} {mark : Mark}
    {c : Cursor} (hordered : Fields.Ordered (fields ++ [f])) :
    (⟨Linked.ofFields fields, []⟩ : MappingState).store (.leaf (.text f.1)) (.ofValue f.2) mark c
      = .ok ⟨Linked.ofFields (fields ++ [f]), []⟩ := by
  have hbefore : ∀ g ∈ Linked.ofFields fields, Fields.Before g.1 f.1 := by
    rw [Linked.ofFields_eq_map]
    refine List.forall_mem_map.mpr fun g hg => ?_
    exact (List.pairwise_append.mp hordered).2.2 g hg f List.mem_cons_self
  have hgiven : (⟨Linked.ofFields fields, []⟩ : MappingState).isGiven f.1 = false := by
    simp [MappingState.isGiven, Fields.has_eq_false_of_before hbefore]
  have hfields : Linked.ofFields (fields ++ [f])
      = Linked.ofFields fields ++ [(f.1, Linked.ofValue f.2)] := by
    simp [Linked.ofFields_eq_map]
  simp [MappingState.store, keyText?, Names.target, Linked.target, Value.text?, hgiven,
    MappingState.set, Fields.put_of_before hbefore, hfields]

/-- A mapping of which the given fields were read, and nothing else. -/
structure BlockMapping.Holds (b : BlockMapping) (fields : Fields) : Prop where
  slot : b.slot = none
  waiting : b.waiting = none
  pairs : b.pairs = ⟨Linked.ofFields fields, []⟩

namespace BlockMapping

variable {b : BlockMapping} {fields : Fields} {f : String × Value} {c : Cursor}

/-- Once a key was read up to the colon after it, its value is read and stored. -/
theorem implicitPair_eq {child : Reader} {column floor : Nat} {node : Node} {d : Cursor}
    {rest : List Char} (hnode : child ⟨floor + 1, .flowOut, false, true⟩ c = .ok (node, d))
    (hpresent : node.present = true) (hline : d.line = c.line) (hd : d.rest = ':' :: rest)
    (hspacing : startsWith isSpacing rest = true) (hb : b.Holds fields) :
    b.implicitPair child column floor c
      = child ⟨column + 1, .blockOut, true, false⟩ (d.past [':'] rest) >>= fun r =>
        b.pairs.storeTagged node.tag node.value r.1.valueOrNull c.mark r.2 >>= fun q =>
        .ok (.pair ⟨none, q.1, none, c.mark, true⟩, q.2) := by
  have hskip : d.skip isWhite = d := Cursor.skip_of_startsWith (by rw [hd]; rfl)
  have hcolon : startsWith (· = ':') d.rest = true := by rw [hd]; rfl
  have hnext := Cursor.next_eq hd
  simp [implicitPair, hnode, hpresent, hline, hskip, hcolon, hnext, hspacing, settle, hb.waiting,
    withPairs, hb.slot, bind, Except.bind]

end BlockMapping

section Pair

variable {depth level floor k : Nat} {fits p : Prop} {content : List Char} {b : BlockMapping}
  {fields : Fields} {f : String × Value} {c : Cursor} {steps : Nat}
  {good : BlockMapping.Outcome × Cursor → Prop}

/-- What goes on after a pair, from the beginning of the next line. -/
def goesOn (depth level floor k : Nat) (b : BlockMapping) (d : Cursor) (steps : Nat) :
    Except Fault (BlockMapping.Outcome × Cursor) :=
  if k < 2 * level then b.finish d
  else b.read (Node.read depth) (2 * level) floor d steps

theorem goOn_pair {line : Nat} {d : Cursor} (hd : d.token.AtLine k content)
    (hline : line < d.token.line) (hk : k ≤ 2 * level) :
    BlockMapping.goOn (Node.read depth) (2 * level) floor line steps (.pair b, d)
      = goesOn depth level floor k b d.token steps := by
  rw [BlockMapping.goOn, isMisplaced_eq_false hd hline hk, hd.indent]
  rfl

/-- A pair with its key before a colon. -/
theorem read_short (hshort : isLongKey (keyText f.1) = false) (hfits : fits → 1 ≤ depth)
    (hread : NodeReads (Node.read depth) fits level false (childText level false f.2)
      (.ofValue f.2))
    (hb : b.Holds fields) (hordered : Fields.Ordered (fields ++ [f])) (hat : c.At (2 * level))
    (hlevel : 0 < level) (hk : k ≤ 2 * level) (hcontent : startsToken content = true)
    (hc : c.rest = fieldText level f ++ '\n' :: (List.replicate k ' ' ++ content))
    (hnext : ∀ (b' : BlockMapping) (d : Cursor), b'.Holds (fields ++ [f]) → b'.detected = true →
      d.AtLine k content → c.line < d.line →
      Reads p good (goesOn depth level floor k b' d steps)) :
    Reads (fits ∧ p) good
      (b.read (Node.read depth) (2 * level) floor c (steps + 1)) := by
  have hinline := inline_keyText f.1
  obtain ⟨text, htext⟩ : ∃ text, childText level false f.2 = text := ⟨_, rfl⟩
  rw [fieldText_short hshort, htext, List.append_assoc, List.cons_append] at hc
  rw [htext] at hread
  have hopens : opensContent c.rest = true := by
    rw [hc]
    exact opensContent_append hinline.opens _
  rw [BlockMapping.read_succ (ne_nil_of_opensContent hopens) hat.tab,
    BlockMapping.step_of_opensContent hopens]
  cases depth with
  | zero =>
    have hdeep : b.implicitPair (Node.read 0) (2 * level) floor c = c.fail .tooDeep := rfl
    rw [hdeep]
    exact Reads.tooDeep (fun h => absurd (hfits h.1) (by decide)) c
  | succ depth =>
    have hspacing := startsWith_isSpacing_gap text ('\n' :: (List.replicate k ' ' ++ content))
    obtain ⟨node, hnode, hvalue, hpresent, htag⟩ :=
      hinline.read_key depth floor hc (hat.ready (by omega)) hspacing
    rw [BlockMapping.implicitPair_eq hnode hpresent rfl rfl hspacing hb, Cursor.past_past]
    have hchild := hread .blockOut true _ _ k content rfl
      (hat.past : (c.past (keyText f.1 ++ [':']) _).At _) (by omega) hk hcontent rfl
      (fun _ => rfl) (by simp)
    rw [bind_assoc]
    refine hchild.bind fun r hr => ?_
    have hvalueOrNull : r.1.valueOrNull = .ofValue f.2 := by
      simp [Node.valueOrNull, hr.present, hr.value]
    rw [MappingState.storeTagged, if_neg htag, hvalue, hvalueOrNull, hb.pairs,
      MappingState.store_of_ordered hordered]
    simp only [Except.map, bind, Except.bind]
    have hbelow : c.line < r.2.token.line := hr.below
    rw [goOn_pair hr.next hbelow hk]
    exact hnext _ _ ⟨rfl, rfl, rfl⟩ rfl hr.next hbelow

/-- The value of a key that stands on a line of its own. -/
theorem read_explicitValue {text : List Char}
    (hread : NodeReads (Node.read depth) fits level true text (.ofValue f.2))
    (htext : startsToken text = true) (hslot : b.slot = none)
    (hpairs : b.pairs = ⟨Linked.ofFields fields, []⟩)
    (hwaiting : b.waiting = some (.leaf (.text f.1))) (hdetected : b.detected = true)
    (hordered : Fields.Ordered (fields ++ [f])) (hat : c.At (2 * level)) (hk : k ≤ 2 * level)
    (hcontent : startsToken content = true)
    (hc : c.rest = ':' :: (gap text ++ text ++ '\n' :: (List.replicate k ' ' ++ content)))
    (hnext : ∀ (b' : BlockMapping) (d : Cursor), b'.Holds (fields ++ [f]) → b'.detected = true →
      d.AtLine k content → c.line < d.line →
      Reads p good (goesOn depth level floor k b' d steps)) :
    Reads (fits ∧ p) good (b.read (Node.read depth) (2 * level) floor c (steps + 1)) := by
  have hgap := gap_of_startsToken htext
  have hquestion : BlockMapping.startsExplicit '?' c.rest = false := by rw [hc]; rfl
  have hcolon : BlockMapping.startsExplicit ':' c.rest = true := by rw [hc, hgap]; rfl
  have hnextRest := Cursor.next_eq hc
  have hstep : b.step (Node.read depth) (2 * level) floor c
      = Node.read depth ⟨2 * level + 1, .blockOut, true, true⟩ c.next >>= fun r =>
        b.pairs.store (.leaf (.text f.1)) r.1.valueOrNull b.mark r.2 >>= fun pairs =>
        .ok (.pair ⟨none, pairs, none, b.mark, true⟩, r.2) := by
    simp [BlockMapping.step, hquestion, hcolon, hwaiting, BlockMapping.explicitValue,
      BlockMapping.withPairs, hslot, hdetected, bind, Except.bind]
  have hchild := hread .blockOut true c.next (2 * level + 1) k content rfl
    (by rw [hnextRest]; exact hat.past) (by omega) hk hcontent (by rw [hnextRest]; rfl) (by simp)
    (by simp; omega)
  rw [BlockMapping.read_succ (by rw [hc]; exact List.cons_ne_nil _ _) hat.tab, hstep, bind_assoc]
  refine hchild.bind fun r hr => ?_
  have hvalue : r.1.valueOrNull = .ofValue f.2 := by simp [Node.valueOrNull, hr.present, hr.value]
  have hbelow : c.line < r.2.token.line := by
    have := hr.below
    rwa [hnextRest, Cursor.line_past] at this
  rw [hvalue, hpairs, MappingState.store_of_ordered hordered]
  simp only [bind, Except.bind]
  rw [goOn_pair hr.next hbelow hk]
  exact hnext _ _ ⟨rfl, rfl, rfl⟩ rfl hr.next hbelow

/-- A pair with its key on a line of its own. -/
theorem read_long (hlong : isLongKey (keyText f.1) = true) (hfits : fits → 2 ≤ depth)
    (hread : NodeReads (Node.read depth) fits level true (childText level true f.2)
      (.ofValue f.2))
    (htext : startsToken (childText level true f.2) = true) (hb : b.Holds fields)
    (hordered : Fields.Ordered (fields ++ [f])) (hat : c.At (2 * level)) (hk : k ≤ 2 * level)
    (hcontent : startsToken content = true)
    (hc : c.rest = fieldText level f ++ '\n' :: (List.replicate k ' ' ++ content))
    (hnext : ∀ (b' : BlockMapping) (d : Cursor), b'.Holds (fields ++ [f]) → b'.detected = true →
      d.AtLine k content → c.line < d.line →
      Reads p good (goesOn depth level floor k b' d steps)) :
    Reads (fits ∧ p) good
      (b.read (Node.read depth) (2 * level) floor c (steps + 2)) := by
  have hinline := inline_keyText f.1
  have hgap := gap_of_startsToken (startsToken_of_opensContent hinline.opens)
  obtain ⟨value, hvalue⟩ : ∃ value, ':' :: (gap (childText level true f.2)
      ++ childText level true f.2 ++ '\n' :: (List.replicate k ' ' ++ content)) = value := ⟨_, rfl⟩
  have hc' : c.rest = '?' :: (gap (keyText f.1) ++ keyText f.1
      ++ '\n' :: (List.replicate (2 * level) ' ' ++ value)) := by
    rw [hc, fieldText_long hlong, ← hvalue]
    simp [nextLine]
  have hquestion : BlockMapping.startsExplicit '?' c.rest = true := by rw [hc', hgap]; rfl
  have hnextRest := Cursor.next_eq hc'
  have hstep : b.step (Node.read depth) (2 * level) floor c
      = Node.read depth ⟨2 * level + 1, .blockOut, true, true⟩ c.next >>= fun r =>
        .ok (.pair ⟨none, ⟨Linked.ofFields fields, []⟩, some r.1.valueOrNull, c.next.mark, true⟩,
          r.2) := by
    simp [BlockMapping.step, hquestion, BlockMapping.explicitKey, BlockMapping.settle, hb.waiting,
      hb.slot, hb.pairs, bind, Except.bind]
  have hkey := (insideReads_of_inline hinline level true).nodeReads
    (startsNode_of_opensContent hinline.opens) depth .blockOut true c.next (2 * level + 1)
    (2 * level) value rfl (by rw [hnextRest]; exact hat.past) (by omega) (Nat.le_refl _)
    (by rw [← hvalue]; rfl) (by rw [hnextRest]; rfl) (by simp) (by simp; omega)
  rw [BlockMapping.read_succ (by rw [hc']; exact List.cons_ne_nil _ _) hat.tab, hstep, bind_assoc]
  refine (hkey.bind (p := fits ∧ p) fun q hq => ?_).congr ?_
  · have hname : q.1.valueOrNull = .leaf (.text f.1) := by
      simp [Node.valueOrNull, hq.present, hq.value]
    have hbelow : c.line < q.2.token.line := by
      have := hq.below
      rwa [hnextRest, Cursor.line_past] at this
    simp only [bind, Except.bind]
    rw [goOn_pair hq.next hbelow (Nat.le_refl _), goesOn, if_neg (Nat.lt_irrefl _), hname]
    refine read_explicitValue hread htext rfl rfl rfl rfl hordered hq.next.at hk hcontent
      (by rw [hq.next.rest, hvalue]) fun b' d hb' hdetected hd hline => ?_
    exact hnext b' d hb' hdetected hd (hbelow.trans hline)
  · have : fits → 1 + 1 ≤ depth := hfits
    simp only [if_true]
    exact ⟨fun h => h.2, fun h => ⟨this h.1, h⟩⟩

end Pair

/-- A field of which the value is read, and the key if the nesting of the value fits. -/
structure FieldReads (depth level : Nat) (fits : Prop) (f : String × Value) : Prop where
  key : fits → (if isLongKey (keyText f.1) then 2 else 1) ≤ depth
  value : NodeReads (Node.read depth) fits level (isLongKey (keyText f.1))
    (childText level (isLongKey (keyText f.1)) f.2) (.ofValue f.2)
  token : startsToken (childText level true f.2) = true
  written : (nodeText? (level + 1) (isLongKey (keyText f.1)) f.2).isSome = true

section Fields

variable {depth level floor k : Nat} {content : List Char} (hlevel : 0 < level)
  (hcontent : startsToken content = true)
include hlevel hcontent

theorem FieldReads.read_pair {fits p : Prop} {f : String × Value}
    (hf : FieldReads depth level fits f) {b : BlockMapping} {fields : Fields} {c : Cursor}
    {steps : Nat} {good : BlockMapping.Outcome × Cursor → Prop} (hb : b.Holds fields)
    (hordered : Fields.Ordered (fields ++ [f])) (hat : c.At (2 * level)) (hk : k ≤ 2 * level)
    (hc : c.rest = fieldText level f ++ '\n' :: (List.replicate k ' ' ++ content))
    (hnext : ∀ (b' : BlockMapping) (d : Cursor) (steps' : Nat), steps ≤ steps' →
      b'.Holds (fields ++ [f]) → b'.detected = true → d.AtLine k content → c.line < d.line →
      Reads p good (goesOn depth level floor k b' d steps')) :
    Reads (fits ∧ p) good (b.read (Node.read depth) (2 * level) floor c (steps + 2)) := by
  obtain ⟨hkey, hvalue, htoken, -⟩ := hf
  cases hlong : isLongKey (keyText f.1) with
  | false =>
    rw [hlong] at hkey hvalue
    exact read_short hlong hkey hvalue hb hordered hat hlevel hk hcontent hc
      fun b' d => hnext b' d (steps + 1) (Nat.le_succ _)
  | true =>
    rw [hlong] at hkey hvalue
    exact read_long hlong hkey hvalue htoken hb hordered hat hk hcontent hc
      fun b' d => hnext b' d steps (Nat.le_refl _)

variable (hk : k ≤ 2 * level) (hend : k < 2 * level ∨ content = []) {fits : String × Value → Prop}
include hk hend

/-- The pairs of a mapping are read in turn, after those that were read before. -/
theorem read_fieldsText (floor : Nat) :
    ∀ (fields before : Fields) (b : BlockMapping) (c : Cursor) (steps : Nat),
      (∀ f ∈ fields, FieldReads depth level (fits f) f) → fields ≠ [] →
      2 * fields.length ≤ steps → b.Holds before → Fields.Ordered (before ++ fields) →
      c.At (2 * level) →
      c.rest = fieldsText level true fields ++ '\n' :: (List.replicate k ' ' ++ content) →
      Reads (∀ f ∈ fields, fits f)
        (fun r => r.1 = .mapping (Linked.ofFields (before ++ fields)) ∧ r.2.AtLine k content
          ∧ c.line < r.2.line)
        (b.read (Node.read depth) (2 * level) floor c steps)
  | [], _, _, _, _, _, hne, _, _, _, _, _ => absurd rfl hne
  | f :: fields, before, b, c, steps, hreads, _, hlen, hb, hordered, hat, hc => by
    have hf := hreads f List.mem_cons_self
    obtain ⟨steps, rfl⟩ : ∃ n, steps = n + 2 := ⟨steps - 2, by simp at hlen; omega⟩
    have hpart : Fields.Ordered (before ++ [f]) := by
      refine hordered.sublist ?_
      exact List.Sublist.append_left (List.cons_sublist_cons.mpr (List.nil_sublist _)) _
    obtain ⟨k', content', hnext, hk', hcontent', hlast, hmore⟩ :=
      next_of_below (fields = []) (fieldsText level true fields)
        (fieldsText level false fields) hk hcontent (by rintro rfl; rfl)
        (fun h => fieldsText_below (fun g hg => (hreads g (List.mem_cons_of_mem _ hg)).written) h)
        (fun h => by
          obtain ⟨g, gs, rfl⟩ := List.exists_cons_of_ne_nil h
          have hg := hreads g (by simp)
          rw [fieldsText_eq hg.written]
          have := (startsNode_fieldText level g).append (fieldsText level false gs)
          exact ⟨this.token, this.ne_nil⟩)
    rw [fieldsText_eq hf.written, if_pos rfl, List.nil_append, List.append_assoc, hnext] at hc
    refine (hf.read_pair hlevel hcontent' hb hpart hat hk' hc
      (p := ∀ g ∈ fields, fits g) ?_).congr (by simp)
    intro b' d steps' hsteps hb' hdetected hd hline
    by_cases hfields : fields = []
    · obtain ⟨rfl, rfl⟩ := hlast hfields
      subst hfields
      have hfinish : b'.finish d = .ok (.mapping (Linked.ofFields (before ++ [f])), d) := by
        simp [BlockMapping.finish, BlockMapping.settle, hb'.waiting, hdetected, hb'.pairs, bind,
          Except.bind]
      have hended :
          goesOn depth level floor k' b' d steps'
            = .ok (.mapping (Linked.ofFields (before ++ [f])), d) := by
        rcases hend with h | rfl
        · rw [goesOn, if_pos h, hfinish]
        · have hread : b'.read (Node.read depth) (2 * level) floor d steps' = b'.finish d := by
            cases steps' <;>
              simp [BlockMapping.read, hd.rest]
          rw [goesOn, hread, hfinish, ite_self]
      rw [hended]
      exact (Reads.ok ⟨rfl, hd, hline⟩).congr (by simp)
    · obtain ⟨rfl, rfl⟩ := hmore hfields
      have ih := read_fieldsText floor fields (before ++ [f]) b' d steps'
        (fun g hg => hreads g (List.mem_cons_of_mem _ hg)) hfields
        (by simp at hlen; omega) hb' (by simpa using hordered) hd.at hd.rest
      rw [goesOn, if_neg (Nat.lt_irrefl _)]
      refine ih.imp fun q hq => ⟨?_, hq.2.1, hline.trans hq.2.2⟩
      simpa using hq.1

/-- A mapping is read as the record of its fields. -/
theorem readInside_fieldsText {fields : Fields} {c : Cursor} {context : Context}
    (hreads : ∀ f ∈ fields, FieldReads depth level (fits f) f) (hne : fields ≠ [])
    (hordered : Fields.Ordered fields) (hat : c.At (2 * level))
    (hc : c.rest = fieldsText level true fields ++ '\n' :: (List.replicate k ' ' ++ content)) :
    Reads (∀ f ∈ fields, fits f) (Leads (.ofValue (.record fields)) k content c)
      (readInside (Node.read depth) floor context true c) := by
  have hlen : 2 * fields.length ≤ c.rest.length + 1 := by
    have := length_le_fieldsText level fun f hf => (hreads f hf).written
    rw [hc, List.length_append]
    omega
  have hentry : startsEntry c.rest = false := by
    obtain ⟨f, fields, rfl⟩ := List.exists_cons_of_ne_nil hne
    rw [hc, fieldsText_eq (hreads f List.mem_cons_self).written, if_pos rfl, List.nil_append,
      List.append_assoc]
    exact startsEntry_fieldText level f _
  have hempty : c.rest.isEmpty = false := by
    rw [hc]
    cases fieldsText level true fields <;> rfl
  have hread := read_fieldsText hlevel hcontent hk hend floor fields []
    ⟨none, {}, none, c.mark, false⟩ c (c.rest.length + 1) hreads hne hlen ⟨rfl, rfl, rfl⟩ hordered
    hat hc
  refine ⟨fun h => ?_, fun h => ?_⟩
  · obtain ⟨⟨outcome, d⟩, hrun, rfl, hd, hline⟩ := hread.of_fits h
    refine ⟨(⟨none, some .mapping, .ofValue (.record fields), true⟩, d), ?_, rfl, rfl, ?_, ?_⟩
    · simp [readInside, insideDraft, blockSequence?, hentry, hat.tab, hempty, blockMapping,
        hat.column_eq, hrun, resolve, Linked.ofValue, bind, Except.bind, pure, Except.pure]
    · rw [hd.token hcontent]
      exact hd
    · rw [hd.token hcontent]
      exact hline
  · obtain ⟨p, hrun, hp⟩ := hread.of_not_fits h
    refine ⟨p, ?_, hp⟩
    simp [readInside, insideDraft, blockSequence?, hentry, hat.tab, hempty, blockMapping,
      hat.column_eq, hrun, bind, Except.bind]

end Fields

end ParamForm.Yaml
