import ParamForm.Proofs.Yaml.Reading

/-!
# Sequences read back

The entries of a written sequence are read one after another, if the reader of the nodes below reads
each of them (`readInside_itemsText`).
-/

namespace ParamForm.Yaml

theorem itemsText_below (level : Nat) {vs : List Value} (h : vs ≠ []) :
    itemsText level false vs = nextLine level ++ itemsText level true vs := by
  cases vs with
  | nil => exact absurd rfl h
  | cons v vs => simp [itemsText]

theorem itemsText_eq (level : Nat) (v : Value) (vs : List Value) :
    itemsText level true (v :: vs)
      = '-' :: (gap (childText level true v) ++ childText level true v)
        ++ itemsText level false vs := by
  simp [itemsText, attached_eq, childText]

theorem noNull_itemsText (level : Nat) {vs : List Value}
    (h : ∀ v ∈ vs, '\x00' ∉ childText level true v) (here : Bool) :
    '\x00' ∉ itemsText level here vs := by
  induction vs generalizing here with
  | nil => simp [itemsText]
  | cons v vs ih =>
    have hv := h v List.mem_cons_self
    have ih := ih (fun w hw => h w (List.mem_cons_of_mem _ hw)) false
    have htrue : '\x00' ∉ itemsText level true (v :: vs) := by
      rw [itemsText_eq, gap]
      split_ifs <;> simp [hv, ih]
    cases here with
    | false =>
      rw [itemsText_below level (List.cons_ne_nil v vs)]
      simp [nextLine, htrue]
    | true => exact htrue

theorem length_le_itemsText (level : Nat) (vs : List Value) :
    vs.length ≤ (itemsText level true vs).length := by
  induction vs with
  | nil => exact Nat.zero_le _
  | cons v vs ih =>
    rw [itemsText_eq]
    by_cases hvs : vs = []
    · subst hvs
      simp only [List.length_append, List.length_cons, List.length_nil]
      omega
    · rw [itemsText_below level hvs]
      simp only [List.length_append, List.length_cons]
      omega

theorem sequenceEntries_nil {child : Reader} {column : Nat} {items : List Linked} {c : Cursor}
    (hc : c.rest = []) (entries : Nat) :
    sequenceEntries child column none items c entries = .ok (items, c) := by
  cases entries <;> simp [sequenceEntries, hc, pure, Except.pure]

/-- An entry whose content stands on the line of its dash. -/
theorem sequenceEntries_entry {child : Reader} {column : Nat} {items : List Linked} {c : Cursor}
    {text : List Char} (hc : c.rest = '-' :: ' ' :: text) (htext : startsToken text = true)
    (htab : c.tab = none) (entries : Nat) :
    sequenceEntries child column none items c (entries + 1)
      = child ⟨column + 1, .blockIn, false, true⟩ (c.past ['-', ' '] text) >>= fun r =>
        if isMisplaced column c.line r.2.token then r.2.token.fail .badEntryIndentation
        else if r.2.token.indent < column then .ok (r.1.value :: items, r.2.token)
        else sequenceEntries child column none (r.1.value :: items) r.2.token entries := by
  have hentry : startsEntry c.rest = true := by rw [hc]; rfl
  have hempty : c.rest.isEmpty = false := by rw [hc]; rfl
  have hsep : c.next.separation true = (0, c.past ['-', ' '] text) := by
    rw [Cursor.next_eq hc, Cursor.separation_space (n := 1) true rfl htext, Cursor.past_past]
    rfl
  simp [sequenceEntries, hentry, hempty, hsep, checkTab, htab, bind, Except.bind]

section Sequence

variable {child : Reader} {fits : Value → Prop} {level k : Nat} {content : List Char}
  (hk : k ≤ 2 * level) (hcontent : startsToken content = true)
  (hend : k < 2 * level ∨ content = [])
include hk hcontent hend

/-- The entries of a sequence are read in turn. -/
theorem sequenceEntries_itemsText :
    ∀ (vs : List Value) (items : List Linked) (c : Cursor) (entries : Nat),
      (∀ v ∈ vs, NodeReads child (fits v) level true (childText level true v) (.ofValue v)) →
      (∀ v ∈ vs, startsToken (childText level true v) = true ∧ childText level true v ≠ []) →
      vs ≠ [] → vs.length ≤ entries → c.At (2 * level) →
      c.rest = itemsText level true vs ++ '\n' :: (List.replicate k ' ' ++ content) →
      Reads (∀ v ∈ vs, fits v)
        (fun r => r.1 = (Linked.ofItems vs).reverse ++ items ∧ r.2.AtLine k content
          ∧ c.line < r.2.line)
        (sequenceEntries child (2 * level) none items c entries)
  | [], _, _, _, _, _, hne, _, _, _ => absurd rfl hne
  | _ :: _, _, _, 0, _, _, _, hlen, _, _ => absurd hlen (by simp)
  | v :: vs, items, c, entries + 1, hreads, hstarts, _, hlen, hat, hc => by
    obtain ⟨htoken, hne⟩ := hstarts v List.mem_cons_self
    obtain ⟨k', content', hnext, hk', hcontent', hlast, hmore⟩ :=
      next_of_below (vs = []) (itemsText level true vs)
        (itemsText level false vs) hk hcontent (by rintro rfl; rfl) (itemsText_below level)
        (fun h => by
          obtain ⟨w, ws, rfl⟩ := List.exists_cons_of_ne_nil h
          exact ⟨by rw [itemsText_eq]; rfl, by rw [itemsText_eq]; simp⟩)
    set text := childText level true v with htext
    have hgap : gap text = [' '] := gap_of_startsToken htoken
    have hc' : c.rest = '-' :: ' ' :: (text ++ '\n' :: (List.replicate k' ' ' ++ content')) := by
      rw [hc, itemsText_eq, ← htext, hgap, List.append_assoc, hnext]
      simp
    set rest := text ++ '\n' :: (List.replicate k' ' ' ++ content') with hrest
    set d := c.past ['-', ' '] rest with hd
    have hatd : d.At (2 * level + 2) := hat.past
    have hchild := hreads v List.mem_cons_self .blockIn false d (2 * level + 2) k' content' rfl hatd
      (by omega) hk' hcontent' rfl (by simp) (fun _ => by simp; omega)
    rw [sequenceEntries_entry hc' (startsToken_append htoken hne) hat.tab]
    refine (hchild.bind (p := ∀ w ∈ vs, fits w) fun r hr => ?_).congr ?_
    · have hbelow : c.line < r.2.token.line := hr.below
      rw [isMisplaced_eq_false hr.next hbelow hk', hr.next.indent, hr.value]
      by_cases hvs : vs = []
      · obtain ⟨rfl, rfl⟩ := hlast hvs
        subst hvs
        have hended : (if k' < 2 * level then .ok (.ofValue v :: items, r.2.token)
            else sequenceEntries child (2 * level) none (.ofValue v :: items) r.2.token entries)
            = .ok (.ofValue v :: items, r.2.token) := by
          rcases hend with h | rfl
          · rw [if_pos h]
          · rw [sequenceEntries_nil hr.next.rest, ite_self]
        rw [if_neg (by simp), hended]
        exact (Reads.ok ⟨rfl, hr.next, hbelow⟩).congr (by simp)
      · obtain ⟨rfl, rfl⟩ := hmore hvs
        have ih := sequenceEntries_itemsText vs (.ofValue v :: items) r.2.token entries
          (fun w hw => hreads w (List.mem_cons_of_mem _ hw))
          (fun w hw => hstarts w (List.mem_cons_of_mem _ hw)) hvs (by simpa using hlen)
          hr.next.at hr.next.rest
        rw [if_neg (by simp), if_neg (Nat.lt_irrefl _)]
        refine ih.imp fun q hq => ⟨?_, hq.2.1, hbelow.trans hq.2.2⟩
        simpa [Linked.ofItems] using hq.1
    · simp

theorem readInside_itemsText {vs : List Value} {c : Cursor} {floor : Nat} {context : Context}
    (hreads : ∀ v ∈ vs, NodeReads child (fits v) level true (childText level true v) (.ofValue v))
    (hstarts : ∀ v ∈ vs, startsToken (childText level true v) = true ∧ childText level true v ≠ [])
    (hne : vs ≠ []) (hat : c.At (2 * level))
    (hc : c.rest = itemsText level true vs ++ '\n' :: (List.replicate k ' ' ++ content)) :
    Reads (∀ v ∈ vs, fits v) (Leads (.ofValue (.list vs)) k content c)
      (readInside child floor context true c) := by
  have hlen : vs.length ≤ c.rest.length + 1 := by
    have := length_le_itemsText level vs
    rw [hc, List.length_append]
    omega
  have hentry : startsEntry c.rest = true := by
    obtain ⟨v, vs, rfl⟩ := List.exists_cons_of_ne_nil hne
    obtain ⟨htoken, hv⟩ := hstarts v List.mem_cons_self
    rw [hc, itemsText_eq, gap_of_startsToken htoken]
    rfl
  have hentries := sequenceEntries_itemsText hk hcontent hend vs [] c (c.rest.length + 1) hreads
    hstarts hne hlen hat hc
  have hinside : readInside child floor context true c
      = sequenceEntries child (2 * level) none [] c (c.rest.length + 1) >>= fun r =>
        .ok (⟨none, some .sequence, .list r.1.reverse, true⟩, r.2) := by
    simp only [readInside, insideDraft, blockSequence?, hentry, hat.tab, Cursor.bindOpen_none,
      hat.column_eq, bind, Except.bind, if_true, Option.isNone_none, Bool.and_self]
    rcases sequenceEntries child (2 * level) none [] c (c.rest.length + 1) with f | r <;>
      simp [resolve, pure, Except.pure]
  rw [hinside]
  refine (hentries.bind (p := True) fun r hr => ?_).congr (by simp)
  refine Reads.ok ⟨?_, rfl, ?_, ?_⟩
  · simp [hr.1, Linked.ofValue]
  · rw [hr.2.1.token hcontent]
    exact hr.2.1
  · rw [hr.2.1.token hcontent]
    exact hr.2.2

end Sequence

end ParamForm.Yaml
