import ParamForm.Proofs.Yaml.Linked
import ParamForm.Proofs.Yaml.Scalar
import ParamForm.Yaml.Document

/-!
# Readings of nodes

What reading a written node comes to: it succeeds exactly when the nesting fits into the depth that
is left (`Reads`), and then leads to the value and to the next line (`Leads`). `NodeReads` says so
of a reader and a node below a collection, wherever the node stands.
-/

namespace ParamForm.Yaml

/-- A reading that comes to something good if the nesting fits, and is given up as too deep
otherwise. -/
structure Reads {α : Type} (fits : Prop) (good : α → Prop) (r : Except Fault α) : Prop where
  of_fits : fits → ∃ a, r = .ok a ∧ good a
  of_not_fits : ¬ fits → ∃ p : Problem, r = .error (.problem p) ∧ p.reason = .tooDeep

namespace Reads

variable {α β : Type} {fits : Prop} {good : α → Prop} {good' : β → Prop}
  {r : Except Fault α}

theorem ok {a : α} (h : good a) : Reads True good (.ok a : Except Fault α) where
  of_fits _ := ⟨a, rfl, h⟩
  of_not_fits h := absurd trivial h

theorem tooDeep (h : ¬ fits) (c : Cursor) : Reads fits good (c.fail .tooDeep : Except Fault α) where
  of_fits h' := absurd h' h
  of_not_fits _ := ⟨_, rfl, rfl⟩

theorem bind {p : Prop} {f : α → Except Fault β} (h : Reads fits good r)
    (hf : ∀ a, good a → Reads p good' (f a)) : Reads (fits ∧ p) good' (r >>= f) := by
  by_cases hfits : fits
  · obtain ⟨a, rfl, ha⟩ := h.of_fits hfits
    refine ⟨fun h' => (hf a ha).of_fits h'.2, fun h' => (hf a ha).of_not_fits ?_⟩
    exact fun hcon => h' ⟨hfits, hcon⟩
  · obtain ⟨p, rfl, hp⟩ := h.of_not_fits hfits
    exact ⟨fun h' => absurd h'.1 hfits, fun _ => ⟨p, rfl, hp⟩⟩

theorem imp {good' : α → Prop} (h : Reads fits good r) (himp : ∀ a, good a → good' a) :
    Reads fits good' r where
  of_fits hfits := by
    obtain ⟨a, ha, hgood⟩ := h.of_fits hfits
    exact ⟨a, ha, himp a hgood⟩
  of_not_fits := h.of_not_fits

theorem congr {fits' : Prop} (h : Reads fits good r) (hiff : fits ↔ fits') :
    Reads fits' good r where
  of_fits h' := h.of_fits (hiff.mpr h')
  of_not_fits h' := h.of_not_fits fun hfits => h' (hiff.mp hfits)

end Reads

/-- A place in a column, with no tab before it on its line. -/
structure Cursor.At (c : Cursor) (column : Nat) : Prop where
  tab : c.tab = none
  position : c.position = c.lineStart + column

namespace Cursor

variable {c : Cursor} {n k : Nat} {content run rest : List Char}

theorem AtLine.at (h : c.AtLine k content) : c.At k where
  tab := h.tab
  position := h.position

theorem At.past (h : c.At n) : (c.past run rest).At (n + Text.width run) where
  tab := h.tab
  position := by
    have := h.position
    simp only [position_past, lineStart_past]
    omega

theorem AtLine.token (h : c.AtLine k content) (hcontent : startsToken content = true) :
    c.token = c :=
  token_of_startsToken (by rw [h.rest]; exact hcontent)

theorem At.column_eq (h : c.At n) : c.column = n := by
  rw [Cursor.column, h.position, Nat.add_sub_cancel_left]

theorem At.ready (h : c.At n) (hn : 0 < n) : c.Ready :=
  ready_of_lt h.tab (by rw [h.position]; omega)

end Cursor

/-- What a text of a node leads to: its value, and the next line. -/
structure Leads (v : Linked) (k : Nat) (content : List Char) (c : Cursor) (r : Node × Cursor) :
    Prop where
  value : r.1.value = v
  present : r.1.present = true
  next : r.2.token.AtLine k content
  below : c.line < r.2.token.line

/-- The blank between an indicator and the text after it. -/
def gap (text : List Char) : List Char :=
  if startsWith (· = '\n') text then [] else [' ']

theorem attached_eq (indicator : Char) (text : List Char) :
    attached indicator text = indicator :: (gap text ++ text) := by
  rw [attached, gap]
  split_ifs <;> rfl

theorem gap_of_startsToken {text : List Char} (h : startsToken text = true) : gap text = [' '] := by
  cases text with
  | nil => rfl
  | cons c cs =>
    rw [startsToken_cons] at h
    simp [gap, startsWith, h]

/-- A reader reads the text of a node below a collection at a level, if the nesting fits. A compact
node begins in the column of that level. -/
def NodeReads (child : Reader) (fits : Prop) (level : Nat) (compact : Bool) (text : List Char)
    (v : Linked) : Prop :=
  ∀ (context : Context) (seek : Bool) (c : Cursor) (column k : Nat) (content : List Char),
    context.allowsBlocks = true → c.At column → 0 < column → k ≤ 2 * level →
    startsToken content = true →
    c.rest = (if seek then gap text else []) ++ text
      ++ '\n' :: (List.replicate k ' ' ++ content) →
    (compact = false → seek = true) →
    (compact = true → column + (if seek then 1 else 0) = 2 * (level + 1)) →
    Reads fits (Leads v k content c) (child ⟨2 * level + 1, context, seek, compact⟩ c)

/-- The text of a node below a collection at a level. -/
def childText (level : Nat) (compact : Bool) (v : Value) : List Char :=
  (nodeText? (level + 1) compact v).getD "null".toList

/-- What stands after an entry or a pair: the next one on a line of its own, or what follows the
collection. -/
theorem next_of_below (last : Prop) [Decidable last] (here below : List Char) {level k : Nat}
    {content : List Char} (hk : k ≤ 2 * level) (hcontent : startsToken content = true)
    (hlast : last → below = []) (hmore : ¬ last → below = nextLine level ++ here)
    (hhere : ¬ last → startsToken here = true ∧ here ≠ []) :
    ∃ k' content', below ++ '\n' :: (List.replicate k ' ' ++ content)
        = '\n' :: (List.replicate k' ' ' ++ content')
      ∧ k' ≤ 2 * level ∧ startsToken content' = true
      ∧ (last → k' = k ∧ content' = content)
      ∧ (¬ last → k' = 2 * level
        ∧ content' = here ++ '\n' :: (List.replicate k ' ' ++ content)) := by
  by_cases h : last
  · rw [hlast h]
    exact ⟨k, content, rfl, hk, hcontent, fun _ => ⟨rfl, rfl⟩, fun h' => absurd h h'⟩
  · rw [hmore h]
    refine ⟨2 * level, _, ?_, Nat.le_refl _, ?_, fun h' => absurd h' h, fun _ => ⟨rfl, rfl⟩⟩
    · simp [nextLine]
    · exact startsToken_append (hhere h).1 (hhere h).2

theorem isMisplaced_eq_false {column line k : Nat} {content : List Char} {c : Cursor}
    (h : c.AtLine k content) (hline : line < c.line) (hk : k ≤ column) :
    isMisplaced column line c = false := by
  have hne : ¬ c.line = line := by omega
  have hindent : ¬ column < c.indent := by rw [h.indent]; omega
  simp [isMisplaced, hne, hindent]

/-- The beginning of a written node: no blank, comment or property. -/
structure StartsNode (text : List Char) : Prop where
  ne_nil : text ≠ []
  token : startsToken text = true
  tag : startsWith (· = '!') text = false
  anchor : startsWith (· = '&') text = false

theorem StartsNode.append {text : List Char} (h : StartsNode text) (rest : List Char) :
    StartsNode (text ++ rest) := by
  obtain ⟨hne, htoken, htag, hanchor⟩ := h
  cases text with
  | nil => exact absurd rfl hne
  | cons c cs => exact ⟨List.cons_ne_nil _ _, htoken, htag, hanchor⟩

theorem startsNode_of_opensContent {text : List Char} (h : opensContent text = true) :
    StartsNode text where
  ne_nil := ne_nil_of_opensContent h
  token := startsToken_of_opensContent h
  tag := (startsProperty_of_opensContent h).1
  anchor := (startsProperty_of_opensContent h).2

/-- A text is read as the content of a node below a collection at a level, if `levels` of nesting
are left for what is below it. -/
def InsideReads (levels level : Nat) (collections : Bool) (text : List Char) (v : Linked) : Prop :=
  ∀ (depth : Nat) (context : Context) (c : Cursor) (column k : Nat) (content : List Char),
    context.allowsBlocks = true → c.At column → 0 < column → k ≤ 2 * level →
    startsToken content = true →
    c.rest = text ++ '\n' :: (List.replicate k ' ' ++ content) →
    (collections = true → column = 2 * (level + 1)) →
    Reads (levels ≤ depth) (Leads v k content c)
      (readInside (Node.read depth) (2 * level + 1) context collections c)

namespace InsideReads

variable {levels level : Nat} {compact : Bool} {text : List Char} {v : Linked}

/-- A node that begins on the line of what stands before it. -/
theorem nodeReads (h : InsideReads levels level compact text v) (hstart : StartsNode text)
    (depth : Nat) : NodeReads (Node.read depth) (levels + 1 ≤ depth) level compact text v := by
  intro context seek c column k content hblocks hat hcolumn hk hcontent hc _ hcompact
  cases depth with
  | zero => exact Reads.tooDeep (Nat.not_succ_le_zero _) c
  | succ depth =>
    set rest := text ++ '\n' :: (List.replicate k ' ' ++ content) with hrest
    have hstart' : StartsNode rest := hstart.append _
    set lead := List.replicate (if seek then 1 else 0) ' ' with hlead
    have hc' : c.rest = lead ++ rest := by
      rw [hc, gap_of_startsToken hstart.token, hlead, List.append_assoc]
      cases seek <;> rfl
    rw [Node.read, readWith_space (r := ⟨2 * level + 1, context, seek, compact⟩) rest hc'
      hstart'.token hstart'.tag hstart'.anchor]
    simp only [hblocks, if_true, Bool.true_and]
    have hinside := h depth context (c.past lead rest)
      (column + Text.width lead) k content hblocks hat.past (by omega) hk hcontent rfl
      (by simpa [hlead] using hcompact)
    exact (hinside.imp fun r hr => ⟨hr.value, hr.present, hr.next, hr.below⟩).congr (by omega)

/-- A collection that begins on the line below what stands before it. -/
theorem nodeReads_below (h : InsideReads levels level true text v) (hstart : StartsNode text)
    (depth : Nat) :
    NodeReads (Node.read depth) (levels + 1 ≤ depth) level false (nextLine (level + 1) ++ text)
      v := by
  intro context seek c column k content hblocks hat hcolumn hk hcontent hc hseek _
  cases depth with
  | zero => exact Reads.tooDeep (Nat.not_succ_le_zero _) c
  | succ depth =>
    set rest := text ++ '\n' :: (List.replicate k ' ' ++ content) with hrest
    have hstart' : StartsNode rest := hstart.append _
    have hc' : c.rest = '\n' :: (List.replicate (2 * (level + 1)) ' ' ++ rest) := by
      rw [hc, hseek rfl, hrest]
      simp [gap, nextLine, startsWith]
    rw [Node.read, readWith_below (r := ⟨2 * level + 1, context, seek, false⟩)
      (k := 2 * (level + 1)) (hseek rfl) hblocks (by simp only; omega) hc' hstart'.token hstart'.tag
      hstart'.anchor]
    have hinside := h depth context (c.below (2 * (level + 1)) rest) (2 * (level + 1)) k content
      hblocks (Cursor.atLine_below _ _ _).at (by omega) hk hcontent rfl (fun _ => rfl)
    refine (hinside.imp fun r hr => ⟨hr.value, hr.present, hr.next, ?_⟩).congr (by omega)
    exact (Nat.lt_succ_self _).trans hr.below

end InsideReads

/-- A node on one line takes no level for itself, and one to be tried as a key. -/
theorem insideReads_of_inline {text : List Char} {v : Linked} (h : Inline text v) (level : Nat)
    (compact : Bool) : InsideReads (if compact then 1 else 0) level compact text v := by
  intro depth context c column k content hblocks hat hcolumn hk hcontent hc _
  have hready := hat.ready hcolumn
  have hk' : k < 2 * level + 1 := by omega
  have hleads {d : Cursor} {tag : Option String} {kind : Option NodeKind}
      (hd : d = c.past text ('\n' :: (List.replicate k ' ' ++ content))) :
      Leads v k content c (⟨tag, kind, v, true⟩, d) := by
    have htoken : d.token = d.below k content :=
      Cursor.token_below (by rw [hd]; rfl) hcontent
    refine ⟨rfl, rfl, ?_, ?_⟩
    · rw [htoken]
      exact Cursor.atLine_below _ _ _
    · rw [htoken, hd]
      exact Nat.lt_succ_self _
  cases compact with
  | false =>
    obtain ⟨tag, kind, -, hread⟩ := h.reads
    rw [hread _ _ _ c _ (by rintro rfl; simp [Context.allowsBlocks] at hblocks) hready
      (.line hk' hcontent) hc]
    exact (Reads.ok (hleads rfl)).congr (by simp)
  | true =>
    cases depth with
    | zero =>
      rw [readInside_tooDeep hat.tab (by rw [hc]; exact opensContent_append h.opens _)]
      exact Reads.tooDeep (by simp) c
    | succ depth =>
      obtain ⟨kind, hread⟩ := h.readInside_compact context hready hk' hcontent hc depth
      rw [hread]
      exact (Reads.ok (hleads rfl)).congr (by simp)

theorem insideReads_of_literal {cs : List Char} (hne : cs ≠ [])
    (hw : cs.all (fun c => isWritable c || c = '\n') = true) (level : Nat) (compact : Bool) :
    InsideReads (if compact then 1 else 0) level compact
      (literalHeader cs ++ '\n' :: withoutLastBreak (indented (2 * (level + 1)) true cs))
      (.leaf (.text (String.ofList cs))) := by
  intro depth context c column k content hblocks hat hcolumn hk hcontent hc _
  have hfloor : k < 2 * level + 1 := by omega
  have hleads {d : Cursor} (hd : d.AtLine k content ∧ c.line < d.line) :
      Leads (.leaf (.text (String.ofList cs))) k content c
        (⟨none, some .scalar, .leaf (.text (String.ofList cs)), true⟩, d) := by
    have htoken := hd.1.token hcontent
    refine ⟨rfl, rfl, ?_, ?_⟩
    · rw [htoken]
      exact hd.1
    · rw [htoken]
      exact hd.2
  cases compact with
  | false =>
    obtain ⟨d, hd, hline⟩ := readInside_literal hne hw hfloor hblocks hcontent hc hat.tab 0
      (Node.read depth) false (by simp)
    rw [hd]
    exact (Reads.ok (hleads hline)).congr (by simp)
  | true =>
    cases depth with
    | zero =>
      have hopens : opensContent c.rest = true := by
        rw [hc, literalHeader_eq]
        rfl
      rw [readInside_tooDeep hat.tab hopens]
      exact Reads.tooDeep (by simp) c
    | succ depth =>
      obtain ⟨d, hd, hline⟩ := readInside_literal hne hw hfloor hblocks hcontent hc hat.tab depth _
        true fun _ => rfl
      rw [hd]
      exact (Reads.ok (hleads hline)).congr (by simp)

end ParamForm.Yaml
