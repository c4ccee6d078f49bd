import ParamForm.Proofs.Yaml.Mapping
import ParamForm.Proofs.Yaml.Numeral
import ParamForm.Proofs.Yaml.Sequence
import ParamForm.Proofs.Yaml.Stream

/-!
# Documents read back

Reading the document of a list of data gives the list again, if its nesting fits into the depth of
the reader, and is given up as too deep otherwise (`load_dump`). The levels of a value count the
nodes from the value down to the deepest one; where a block collection could begin, a scalar takes
one level more, since it is first tried as a key (`levels`).
-/

namespace ParamForm.Yaml

open Value

/-- The levels of a scalar or an empty collection. -/
def leafLevels (compact : Bool) : Nat :=
  if compact then 2 else 1

mutual

/-- The levels of nodes that reading the text of a value takes. -/
def levels (compact : Bool) : Value → Nat
  | .list vs => if vs.isEmpty then leafLevels compact else itemsLevels vs + 1
  | .record fields => if fields.isEmpty then leafLevels compact else fieldsLevels fields + 1
  | _ => leafLevels compact

/-- The levels that the items of a sequence take. -/
def itemsLevels : List Value → Nat
  | [] => 0
  | v :: vs => max (levels true v) (itemsLevels vs)

/-- The levels that the values of a mapping take. -/
def fieldsLevels : List (String × Value) → Nat
  | [] => 0
  | (name, v) :: fields => max (levels (isLongKey (keyText name)) v) (fieldsLevels fields)

end

theorem itemsLevels_le {vs : List Value} {n : Nat} :
    itemsLevels vs ≤ n ↔ ∀ v ∈ vs, levels true v ≤ n := by
  induction vs with
  | nil => simp [itemsLevels]
  | cons v vs ih => simp [itemsLevels, ih]

theorem fieldsLevels_le {fields : Fields} {n : Nat} :
    fieldsLevels fields ≤ n ↔ ∀ f ∈ fields, levels (isLongKey (keyText f.1)) f.2 ≤ n := by
  induction fields with
  | nil => simp [fieldsLevels]
  | cons f fields ih =>
    obtain ⟨name, v⟩ := f
    simp [fieldsLevels, ih]

theorem leafLevels_pos (compact : Bool) : 0 < leafLevels compact := by
  cases compact <;> decide

theorem levels_pos (compact : Bool) (v : Value) : 0 < levels compact v := by
  have hleaf := leafLevels_pos compact
  cases v with
  | list vs =>
    rw [levels]
    split_ifs
    · exact hleaf
    · exact Nat.succ_pos _
  | record fields =>
    rw [levels]
    split_ifs
    · exact hleaf
    · exact Nat.succ_pos _
  | _ => exact hleaf

theorem leafLevels_le_levels (compact : Bool) (v : Value) :
    leafLevels compact ≤ levels compact v := by
  have htwo : leafLevels compact ≤ 2 := by cases compact <;> decide
  cases v with
  | list vs =>
    rcases vs with _ | ⟨v, vs⟩
    · exact Nat.le_refl _
    · have hv := levels_pos true v
      simp only [levels, itemsLevels, List.isEmpty_cons, Bool.false_eq_true, if_false]
      omega
  | record fields =>
    rcases fields with _ | ⟨⟨name, v⟩, fields⟩
    · exact Nat.le_refl _
    · have hv := levels_pos (isLongKey (keyText name)) v
      simp only [levels, fieldsLevels, List.isEmpty_cons, Bool.false_eq_true, if_false]
      omega
  | _ => exact Nat.le_refl _

/-- A value is written at a level, and read as a node below a collection there. -/
structure Written (level : Nat) (v : Value) : Prop where
  some : ∀ compact, (nodeText? (level + 1) compact v).isSome = true
  starts : StartsNode (childText level true v)
  noNull : ∀ compact, '\x00' ∉ childText level compact v
  reads : ∀ depth compact, NodeReads (Node.read depth) (levels compact v ≤ depth) level compact
    (childText level compact v) (.ofValue v)

theorem nodeReads_congr {child : Reader} {fits fits' : Prop} {level : Nat} {compact : Bool}
    {text : List Char} {v : Linked} (h : NodeReads child fits level compact text v)
    (hiff : fits ↔ fits') : NodeReads child fits' level compact text v :=
  fun context seek c column k content hblocks hat hcolumn hk hcontent hc hseek hcompact =>
    (h context seek c column k content hblocks hat hcolumn hk hcontent hc hseek hcompact).congr hiff

/-- A value of which the text does not depend on where it begins, and that takes no level for
itself. -/
theorem written_of_inside {level : Nat} {v : Value} {text : List Char} (hstart : StartsNode text)
    (hnull : '\x00' ∉ text)
    (htext : ∀ compact, nodeText? (level + 1) compact v = Option.some text)
    (hlevels : ∀ compact, levels compact v = leafLevels compact)
    (hreads : ∀ compact, InsideReads (if compact then 1 else 0) level compact text (.ofValue v)) :
    Written level v := by
  have hchild (compact : Bool) : childText level compact v = text := by simp [childText, htext]
  refine ⟨fun compact => by simp [htext], by rw [hchild]; exact hstart,
    fun compact => by rw [hchild]; exact hnull, fun depth compact => ?_⟩
  rw [hchild, hlevels]
  refine nodeReads_congr ((hreads compact).nodeReads hstart depth) ?_
  cases compact <;> simp [leafLevels]

theorem written_of_inline {level : Nat} {v : Value} {text : List Char}
    (h : Inline text (.ofValue v))
    (htext : ∀ compact, nodeText? (level + 1) compact v = Option.some text)
    (hlevels : ∀ compact, levels compact v = leafLevels compact) : Written level v :=
  written_of_inside (startsNode_of_opensContent h.opens) h.noNull htext hlevels
    fun compact => insideReads_of_inline h level compact

theorem written_text (level : Nat) (s : String) : Written level (.text s) := by
  have hspec := ofText_spec false s.toList
  by_cases hstyle : ScalarStyle.ofText false s.toList = .literal
  · rw [hstyle] at hspec
    obtain ⟨-, hne, hw⟩ := hspec
    have htext (compact : Bool) : nodeText? (level + 1) compact (.text s)
        = Option.some (literalHeader s.toList
          ++ '\n' :: withoutLastBreak (indented (2 * (level + 1)) true s.toList)) := by
      simp [nodeText?, scalarText, hstyle]
    refine written_of_inside ?_ (noNull_literal hw _) htext (fun _ => rfl) fun compact => ?_
    · rw [literalHeader_eq]
      exact ⟨by simp, rfl, rfl, rfl⟩
    · have := insideReads_of_literal hne hw level compact
      rwa [String.ofList_toList] at this
  · have hinline := inline_scalarText (level + 1) hstyle
    rw [String.ofList_toList] at hinline
    exact written_of_inline hinline (fun _ => rfl) fun _ => rfl

/-- A block collection begins on its line if it is compact, and on the next one otherwise. -/
theorem written_of_collection {level n : Nat} {v : Value} {text : List Char}
    (hstart : StartsNode text) (hnull : '\x00' ∉ text)
    (htext : ∀ compact, nodeText? (level + 1) compact v
      = Option.some ((if compact then [] else nextLine (level + 1)) ++ text))
    (hlevels : ∀ compact, levels compact v = n + 1)
    (hreads : InsideReads n level true text (.ofValue v)) : Written level v := by
  have hchild (compact : Bool) : childText level compact v
      = (if compact then [] else nextLine (level + 1)) ++ text := by simp [childText, htext]
  refine ⟨fun compact => by simp [htext], by rw [hchild]; exact hstart, fun compact => ?_,
    fun depth compact => ?_⟩
  · rw [hchild]
    cases compact <;> simp [nextLine, hnull]
  rw [hchild, hlevels]
  cases compact with
  | false => exact hreads.nodeReads_below hstart depth
  | true => exact hreads.nodeReads hstart depth

theorem written_list {level : Nat} {vs : List Value} (hne : vs ≠ [])
    (h : ∀ v ∈ vs, Written (level + 1) v) : Written level (.list vs) := by
  have hitems (compact : Bool) : itemsText (level + 1) compact vs
      = (if compact then [] else nextLine (level + 1)) ++ itemsText (level + 1) true vs := by
    cases compact with
    | false => exact itemsText_below _ hne
    | true => rfl
  obtain ⟨v, vs, rfl⟩ := List.exists_cons_of_ne_nil hne
  have hstart : StartsNode (itemsText (level + 1) true (v :: vs)) := by
    rw [itemsText_eq]
    exact ⟨by simp, rfl, rfl, rfl⟩
  have hnull := noNull_itemsText (level + 1) (fun v hv => (h v hv).noNull true) true
  refine written_of_collection hstart hnull (fun compact => ?_) (fun compact => rfl)
    (n := itemsLevels (v :: vs)) ?_
  · have hempty : (itemsText (level + 1) compact (v :: vs)).isEmpty = false := by
      rw [hitems]
      simpa using fun _ => hstart.ne_nil
    rw [← hitems]
    simp [nodeText?, hempty]
  · intro depth context c column k content hblocks hat hcolumn hk hcontent hc hcompact
    obtain rfl := hcompact rfl
    have hread : Reads (∀ w ∈ v :: vs, levels true w ≤ depth)
        (Leads (.ofValue (.list (v :: vs))) k content c)
        (readInside (Node.read depth) (2 * level + 1) context true c) :=
      readInside_itemsText (by omega) hcontent (.inl (by omega))
        (fun w hw => (h w hw).reads depth true)
        (fun w hw => ⟨(h w hw).starts.token, (h w hw).starts.ne_nil⟩) hne hat hc
    exact hread.congr itemsLevels_le.symm

theorem written_record {level : Nat} {fields : Fields} (hne : fields ≠ [])
    (hordered : Fields.Ordered fields) (h : ∀ f ∈ fields, Written (level + 1) f.2) :
    Written level (.record fields) := by
  have hsome : ∀ f ∈ fields,
      (nodeText? (level + 1 + 1) (isLongKey (keyText f.1)) f.2).isSome = true :=
    fun f hf => (h f hf).some _
  have hfields (compact : Bool) : fieldsText (level + 1) compact fields
      = (if compact then [] else nextLine (level + 1)) ++ fieldsText (level + 1) true fields := by
    cases compact with
    | false => exact fieldsText_below hsome hne
    | true => rfl
  obtain ⟨f, fields, rfl⟩ := List.exists_cons_of_ne_nil hne
  have hstart : StartsNode (fieldsText (level + 1) true (f :: fields)) := by
    rw [fieldsText_eq (hsome f List.mem_cons_self)]
    exact (startsNode_fieldText (level + 1) f).append _
  have hnull := noNull_fieldsText hsome (fun f hf => (h f hf).noNull _) true
  refine written_of_collection hstart hnull (fun compact => ?_) (fun compact => rfl)
    (n := fieldsLevels (f :: fields)) ?_
  · have hempty : (fieldsText (level + 1) compact (f :: fields)).isEmpty = false := by
      rw [hfields]
      simpa using fun _ => hstart.ne_nil
    rw [← hfields]
    simp [nodeText?, hempty]
  · intro depth context c column k content hblocks hat hcolumn hk hcontent hc hcompact
    obtain rfl := hcompact rfl
    have hreads : ∀ g ∈ f :: fields, FieldReads depth (level + 1)
        (levels (isLongKey (keyText g.1)) g.2 ≤ depth) g := fun g hg =>
      { key := fun hfits => (leafLevels_le_levels _ g.2).trans hfits
        value := (h g hg).reads depth _
        token := (h g hg).starts.token
        written := hsome g hg }
    have hread : Reads (∀ g ∈ f :: fields, levels (isLongKey (keyText g.1)) g.2 ≤ depth)
        (Leads (.ofValue (.record (f :: fields))) k content c)
        (readInside (Node.read depth) (2 * level + 1) context true c) :=
      readInside_fieldsText (Nat.succ_pos level) hcontent (by omega) (.inl (by omega)) hreads hne
        hordered hat hc
    exact hread.congr fieldsLevels_le.symm

mutual

/-- Every value of data is read back. -/
theorem written_value : ∀ (v : Value) (level : Nat), v.WellFormed → v.IsData → Written level v
  | .absent, _, _, hdata | .date _, _, _, hdata | .bytes _, _, _, hdata => hdata.elim
  | .null, _, _, _ => written_of_inline inline_null (fun _ => rfl) fun _ => rfl
  | .bool b, _, _, _ => written_of_inline (inline_bool b) (fun _ => rfl) fun _ => rfl
  | .number _, _, hwf, _ => written_of_inline (inline_number hwf) (fun _ => rfl) fun _ => rfl
  | .text s, level, _, _ => written_text level s
  | .list [], _, _, _ => written_of_inline inline_emptyList (fun _ => rfl) fun _ => rfl
  | .list (v :: vs), level, hwf, hdata =>
    written_list (List.cons_ne_nil v vs) (written_items (v :: vs) (level + 1) hwf hdata)
  | .record [], _, _, _ => written_of_inline inline_emptyRecord (fun _ => rfl) fun _ => rfl
  | .record (f :: fields), level, hwf, hdata =>
    written_record (List.cons_ne_nil f fields) hwf.1
      (written_fields (f :: fields) (level + 1) hwf.2 hdata)

theorem written_items : ∀ (vs : List Value) (level : Nat), WellFormedItems vs → AreData vs →
    ∀ v ∈ vs, Written level v
  | [], _, _, _ => by simp
  | v :: vs, level, hwf, hdata =>
    List.forall_mem_cons.mpr
      ⟨written_value v level hwf.1 hdata.1, written_items vs level hwf.2 hdata.2⟩

theorem written_fields : ∀ (fields : List (String × Value)) (level : Nat),
    WellFormedFields fields → FieldsAreData fields → ∀ f ∈ fields, Written level f.2
  | [], _, _, _ => by simp
  | (_, v) :: fields, level, hwf, hdata =>
    List.forall_mem_cons.mpr
      ⟨written_value v level hwf.1 hdata.1, written_fields fields level hwf.2 hdata.2⟩

end

/-- The text of a list of data is read as the list exactly if the nesting fits. -/
theorem load_dump {vs : List Value} (hwf : (Value.list vs).WellFormed)
    (hdata : (Value.list vs).IsData) :
    Reads (levels true (.list vs) ≤ maxDepth) (· = .tree (.list vs)) (load (dump (.list vs))) := by
  cases vs with
  | nil =>
    have hlevels : levels true (.list []) ≤ maxDepth := by decide
    have hload : load (dump (.list [])) = .ok (.tree (.list [])) := rfl
    rw [hload]
    refine Reads.congr (Reads.ok ?_) (iff_of_true trivial hlevels)
    rfl
  | cons v vs =>
    have hwritten := written_items (v :: vs) 0 hwf hdata
    have hv := (hwritten v List.mem_cons_self).starts
    obtain ⟨more, hmore⟩ : ∃ more, itemsText 0 true (v :: vs) = '-' :: ' ' :: more := by
      rw [itemsText_eq, gap_of_startsToken hv.token]
      exact ⟨_, rfl⟩
    have hdump : dump (.list (v :: vs)) = String.ofList ('-' :: ' ' :: (more ++ ['\n'])) := by
      simp [dump, nodeText?, hmore]
    have hnull : '\x00' ∉ more := by
      have := noNull_itemsText 0 (fun w hw => (hwritten w hw).noNull true) true
      rw [hmore] at this
      exact fun h => this (List.mem_cons_of_mem _ (List.mem_cons_of_mem _ h))
    set text := '-' :: ' ' :: (more ++ ['\n']) with htext
    have hitems : Reads (∀ w ∈ v :: vs, levels true w ≤ 99)
        (Leads (.ofValue (.list (v :: vs))) 0 [] { rest := text })
        (readInside (Node.read 99) 0 .blockOut true { rest := text }) :=
      readInside_itemsText (Nat.le_refl _) rfl (.inr rfl)
        (fun w hw => (hwritten w hw).reads 99 true)
        (fun w hw => ⟨(hwritten w hw).starts.token, (hwritten w hw).starts.ne_nil⟩)
        (List.cons_ne_nil v vs) ⟨rfl, rfl⟩ (by rw [hmore, htext]; rfl)
    have hnormal : normalized text = text := by
      refine normalized_of_break ?_ rfl
      rw [htext, ← List.cons_append, ← List.cons_append, List.getLast?_concat]
    have hlong : 1 < Text.width text := by
      have hhyphen : Text.charWidth '-' = 1 := rfl
      have hspace : Text.charWidth ' ' = 1 := rfl
      simp only [htext, Text.width_cons, hhyphen, hspace]
      omega
    rw [hdump]
    refine (load_of_reads rfl hnormal (by simpa [htext] using hnull) hlong
      (by rw [read_root ⟨List.cons_ne_nil _ _, rfl, rfl, rfl⟩]; exact hitems)).congr ?_
    have hlevels : levels true (.list (v :: vs)) = itemsLevels (v :: vs) + 1 := rfl
    rw [← itemsLevels_le, hlevels, maxDepth]
    omega

end ParamForm.Yaml
