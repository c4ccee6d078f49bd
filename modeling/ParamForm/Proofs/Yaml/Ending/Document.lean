import ParamForm.Proofs.Yaml.Ending.Collection
import ParamForm.Proofs.Yaml.Ending.Scalar
import ParamForm.Yaml.Document

/-!
# Readings of documents end

A node has a tag only where there is an exclamation mark in the text, and without one no
construction asks for a text that a value does not have: a node is read, or there is a problem
(`ends_read`). A text is read as one document at most unless a line of it begins with a document
mark (`ends_documents`).
-/

namespace ParamForm.Yaml

variable {text : List Char} {c : Cursor}

theorem ends_fullTag (h : c.Within text) : EndsAt text (fullTag c) := by
  have hrun : c.rest.take 1 ++ (c.rest.drop 1).takeWhile (· ≠ '>') <+: c.rest := by
    conv_rhs => rw [← List.take_append_drop 1 c.rest]
    exact (List.prefix_append_right_inj _).mpr (List.takeWhile_prefix _)
  have hended := h.past_of_isPrefix hrun
  unfold fullTag
  simp only
  split
  · exact .fail _ _
  · exact hended.next

theorem ends_shortTag (h : c.Within text) : EndsAt text (shortTag c) := by
  have hended := h.past_of_isPrefix (List.takeWhile_prefix fun ch => !isSpacing ch)
  unfold shortTag
  simp only
  split
  · split
    · split
      · exact .fail _ _
      · split
        · exact .fail _ _
        · exact hended
    · exact .fail _ _
  · split
    · exact .fail _ _
    · split
      · exact .fail _ _
      · exact hended

theorem ends_tag? (h : c.Within text) :
    Ends text (fun out => ∀ found ∈ out, found.2.Within text ∧ '!' ∈ text) (tag? c) := by
  unfold tag?
  split
  · rename_i rest hrest
    have hmark : '!' ∈ text := h.rest_subset (hrest ▸ List.mem_cons_self)
    simp only
    split
    case' h_1 => refine (ends_fullTag h.next.next).bind fun out hout => ?_
    case' h_2 => refine (ends_shortTag h.next).bind fun out hout => ?_
    all_goals
      split
      · exact .fail _ _
      · split
        · exact .fail _ _
        · split
          · rintro _ ⟨⟩
            exact ⟨hout, hmark⟩
          · split
            · rintro _ ⟨⟩
              exact ⟨hout, hmark⟩
            · exact .fail _ _
  · simp [Ends]

theorem within_step (h : c.Within text) (p : Properties) (floor : Nat) (blocks : Bool) :
    (p.step floor blocks c).2.Within text := by
  unfold Properties.step
  simp only
  split
  · exact h.separation true
  · exact h.separation true

/-- Properties that were read in a text: with a tag only where the text has one. -/
structure Properties.Of (text : List Char) (p : Properties) : Prop where
  tag : p.tag.isSome = true → '!' ∈ text
  first : ∀ start ∈ p.first, start.Within text

theorem Properties.Of.step {p : Properties} (hp : p.Of text) (floor : Nat) (blocks : Bool)
    (c : Cursor) : (p.step floor blocks c).1.Of text := by
  unfold Properties.step
  simp only
  split
  · exact ⟨hp.tag, hp.first⟩
  · exact ⟨hp.tag, hp.first⟩

theorem eq_none_of_untagged {tag : Option String} (htag : tag.isSome = true → '!' ∈ text)
    (hmark : '!' ∉ text) : tag = none := by
  cases tag with
  | none => rfl
  | some tag => exact absurd (htag rfl) hmark

theorem Properties.Of.first_orElse {p : Properties} (hp : p.Of text) (h : c.Within text) :
    ∀ start ∈ (p.first <|> some c), start.Within text := by
  cases hfirst : p.first with
  | none => simpa using h
  | some first => simpa using hp.first first hfirst

theorem ends_readProperties (h : c.Within text) {p : Properties} (hp : p.Of text) (floor : Nat)
    (blocks : Bool) (steps : Nat) :
    Ends text (fun out => out.2.Within text ∧ out.1.Of text) (p.read floor blocks c steps) := by
  induction steps generalizing c p with
  | zero => exact ⟨h, hp⟩
  | succ steps ih =>
    have hfirst := hp.first_orElse h
    rw [Properties.read]
    split
    · split
      · exact ⟨h, hp⟩
      · exact .fail _ _
    · refine (ends_tag? h).bind fun out hout => ?_
      split
      · rename_i tag d
        obtain ⟨hd, hmark⟩ := hout _ rfl
        have hq : Properties.Of text
            { p with tag := some tag, first := p.first <|> some c } := ⟨fun _ => hmark, hfirst⟩
        exact ih (within_step hd _ _ _) (hq.step _ _ _)
      · refine (ends_anchor? h).bind fun out hout => ?_
        split
        · rename_i anchor d
          have hq : Properties.Of text
              { p with anchor := some anchor, first := p.first <|> some c } := ⟨hp.tag, hfirst⟩
          exact ih (within_step (hout _ rfl) _ _ _) (hq.step _ _ _)
        · exact ⟨h, hp⟩

theorem ends_propertiesOfRequest (h : c.Within text) (r : Request) :
    Ends text (fun out => out.2.Within text ∧ out.1.Of text) (Properties.ofRequest r c) := by
  have hd : (if r.seek then c.separation true else (0, c)).2.Within text := by
    split_ifs
    · exact h.separation true
    · exact h
  have hnone : ∀ start ∈ (none : Option Cursor), start.Within text := by simp
  unfold Properties.ofRequest
  generalize (if r.seek then c.separation true else (0, c)) = entry at hd
  simp only
  generalize (if entry.1 ≠ 0 then Standing.of r.floor entry.2.indent else .inside) = standing
  split
  · exact ends_readProperties hd ⟨by simp, hnone⟩ _ _ _
  · exact ⟨hd, by simp, hnone⟩

/-- A draft that was read in a text: where the text has no tag, it has none either, except that of
a plain scalar. -/
def Draft.Of (text : List Char) (draft : Draft) : Prop :=
  '!' ∉ text → draft.tag = none
    ∨ draft.tag = some plainTag ∧ ∃ s : String, draft.content = some ⟨some .scalar, .leaf (.text s)⟩

theorem ofOption_ne_noText (v? : Option Value) : Construction.ofOption v? ≠ .noText := by
  cases v? <;> nofun

theorem firstTaking_text_ne {s : String} {ts : List CoreType} {t : CoreType}
    {made : Construction} (h : firstTaking (.leaf (.text s)) ts = some (t, made)) :
    made ≠ .noText := by
  induction ts with
  | nil => cases h
  | cons t' ts ih =>
    rw [firstTaking] at h
    split at h
    · exact ih h
    · obtain ⟨-, rfl⟩ := Prod.mk.inj (Option.some.inj h)
      exact ofOption_ne_noText _

theorem ends_constructed (tag : String) {made : Construction} (hmade : '!' ∉ text → made ≠ .noText)
    (c : Cursor) : Ends text (fun _ => True) (constructed tag made c) := by
  cases made with
  | value v => trivial
  | refused => exact .fail _ _
  | noText => exact .inr ⟨rfl, by_contra fun h => hmade h rfl⟩

theorem ends_resolve (h : c.Within text) {draft : Draft} (hdraft : draft.Of text) :
    Ends text (fun out => out.2.2.Within text) (resolve draft c) := by
  unfold resolve
  simp only
  split
  · exact h.bind _ _
  · rename_i tag htag
    split
    · split
      · exact .fail _ _
      · split
        · rename_i t made himplicit
          refine (ends_constructed _ (fun hmark => ?_) c).bind fun _ _ => h.bind _ _
          rcases hdraft hmark with hnone | ⟨-, s, hcontent⟩
          · cases htag.symm.trans hnone
          · rw [hcontent] at himplicit
            exact firstTaking_text_ne himplicit
        · exact h
    · rename_i hplain
      split
      · exact h
      · split
        · exact .fail _ _
        · split
          · exact .fail _ _
          · refine (ends_constructed _ (fun hmark => ?_) c).bind fun _ _ => h.bind _ _
            rcases hdraft hmark with hnone | ⟨hsome, -⟩
            · cases htag.symm.trans hnone
            · exact absurd (Option.some.inj (htag.symm.trans hsome)) hplain

theorem ends_leaf? (h : c.Within text) (floor : Nat) (context : Context) :
    Ends text (fun out => ∀ found ∈ out, found.2.2.Within text
      ∧ (found.2.1 = true → ∃ s : String, found.1 = ⟨some .scalar, .leaf (.text s)⟩))
      (leaf? floor context c) := by
  unfold leaf?
  simp only
  split
  case' isTrue =>
    refine (ends_block? h floor).bind fun out hout => ?_
    split
    case' h_1 =>
      rintro _ ⟨⟩
      exact ⟨hout _ rfl, nofun⟩
  all_goals
    refine (ends_quoted? h).bind fun out hout => ?_
    split
    · rintro _ ⟨⟩
      exact ⟨hout _ rfl, nofun⟩
    · refine (ends_alias? h).bind fun out hout => ?_
      split
      · rintro _ ⟨⟩
        exact ⟨hout _ rfl, nofun⟩
      · refine (ends_plain? h floor _).bind fun out hout => ?_
        split
        · rintro _ ⟨⟩
          exact ⟨hout _ rfl, fun _ => ⟨_, rfl⟩⟩
        · nofun

section Nodes

variable {child : Reader} (hchild : ∀ r c, c.Within text → EndsAt text (child r c))

include hchild

theorem ends_keyedMapping? (c : Cursor) (floor : Nat) {first : Option Cursor}
    (hfirst : ∀ start ∈ first, start.Within text) :
    EndsAt? text (keyedMapping? child floor first c) := by
  unfold keyedMapping?
  split
  · rename_i start
    split
    · refine (ends_blockMapping hchild (hfirst _ rfl) floor none).bind fun out hout => ?_
      split
      · rintro _ ⟨⟩
        exact hout
      · nofun
    · nofun
  · nofun

/-- How reading a draft ends: within the text, with what the text gives. -/
abbrev EndsDraft (text : List Char) : Except Fault (Draft × Cursor) → Prop :=
  Ends text fun out => out.2.Within text ∧ out.1.Of text

omit hchild in
theorem of_tag {tag : Option String} (htag : tag.isSome = true → '!' ∈ text)
    (anchor : Option String) (content : Option Content) : Draft.Of text ⟨tag, anchor, content⟩ :=
  fun hmark => .inl (eq_none_of_untagged htag hmark)

theorem ends_flowDraft (h : c.Within text) (floor : Nat) (context : Context)
    {first : Option Cursor} (hfirst : ∀ start ∈ first, start.Within text) {tag : Option String}
    (htag : tag.isSome = true → '!' ∈ text) (anchor : Option String) :
    EndsDraft text (flowDraft child floor context first tag anchor c) := by
  unfold flowDraft
  refine (ends_flowCollection? hchild h floor anchor).bind fun out hout => ?_
  split
  · exact ⟨hout _ rfl, of_tag htag _ _⟩
  · refine (ends_keyedMapping? hchild c floor hfirst).bind fun out hout => ?_
    split
    · exact ⟨hout _ rfl, of_tag (by simp) _ _⟩
    · refine (ends_leaf? h floor context).bind fun out hout => ?_
      split
      · exact ⟨h.bind _ _, of_tag htag _ _⟩
      · rename_i content isPlain d
        obtain ⟨hd, hplain⟩ := hout _ rfl
        split
        · exact .fail _ _
        · refine ⟨Cursor.Within.bind hd _ _, ?_⟩
          cases isPlain with
          | false => exact of_tag htag _ _
          | true =>
            obtain ⟨s, hcontent⟩ := hplain rfl
            intro hmark
            rw [eq_none_of_untagged htag hmark]
            exact .inr ⟨rfl, s, congrArg some hcontent⟩

theorem ends_insideDraft (h : c.Within text) (floor : Nat) (context : Context)
    (collections : Bool) {first : Option Cursor} (hfirst : ∀ start ∈ first, start.Within text)
    {tag : Option String} (htag : tag.isSome = true → '!' ∈ text) (anchor : Option String) :
    EndsDraft text (insideDraft child floor context collections first tag anchor c) := by
  have hkept : ∀ start ∈ (if context.allowsBlocks && !collections then first else none),
      start.Within text := by
    split_ifs
    · exact hfirst
    · simp
  have hflow := ends_flowDraft hchild h floor context hkept htag anchor
  unfold insideDraft
  simp only
  split
  · refine (ends_blockSequence? hchild h anchor).bind fun out hout => ?_
    split
    · exact ⟨hout _ rfl, of_tag htag _ _⟩
    · split
      · refine (ends_blockMapping hchild h floor anchor).bind fun out hout => ?_
        split
        · exact ⟨hout, of_tag htag _ _⟩
        · exact ⟨hout, of_tag htag _ _⟩
        · exact ends_flowDraft hchild hout floor context (by simp) (by simp) none
      · exact hflow
  · exact hflow

theorem ends_draft (h : c.Within text) (r : Request) {p : Properties} (hp : p.Of text) :
    EndsDraft text (draft child r p c) := by
  unfold draft
  simp only
  split
  · exact ends_insideDraft hchild h _ _ _ hp.first hp.tag _
  · split
    · refine (ends_blockSequence? hchild h _).bind fun out hout => ?_
      split
      · exact ⟨hout _ rfl, of_tag hp.tag _ _⟩
      · refine ⟨?_, of_tag hp.tag _ _⟩
        simp only
        split_ifs
        · exact h.bind _ _
        · exact h
    · exact ⟨h, of_tag hp.tag _ _⟩
  · exact ⟨h, of_tag hp.tag _ _⟩

theorem ends_readWith (r : Request) (h : c.Within text) :
    EndsAt text (Node.readWith child r c) := by
  unfold Node.readWith
  refine (ends_propertiesOfRequest h r).bind fun out hout => ?_
  refine (ends_draft hchild hout.1 r hout.2).bind fun made hmade => ?_
  exact (ends_resolve hmade.1 hmade.2).bind fun resolved hresolved => hresolved

omit hchild in
/-- Reading a node leads from a place of a text to another one, or ends. -/
theorem ends_read (depth : Nat) (r : Request) (c : Cursor) (h : c.Within text) :
    EndsAt text (Node.read depth r c) := by
  induction depth generalizing r c with
  | zero => exact .fail _ _
  | succ depth ih =>
    rw [Node.read]
    exact ends_readWith ih r h

end Nodes

theorem within_directiveWords (h : c.Within text) (words : Nat) :
    (directiveWords c words).2.Within text := by
  induction words generalizing c with
  | zero => exact h
  | succ words ih =>
    have hskip := h.skip isWhite
    rw [directiveWords]
    simp only
    split_ifs
    · exact hskip.skipComment
    · exact hskip
    · exact ih (hskip.past_of_isPrefix (List.takeWhile_prefix fun ch => !isSpacing ch))

theorem ends_versionDirective (seen : Bool) (words : List (List Char)) (c : Cursor) :
    Ends text (fun _ => True) (versionDirective seen words c) := by
  unfold versionDirective
  split
  · exact .fail _ _
  · split
    · split
      · exact .fail _ _
      · split
        · trivial
        · exact .fail _ _
    · exact .fail _ _

theorem ends_handleDirective (h : c.Within text) (words : List (List Char)) :
    Ends text (fun d => d.Within text) (handleDirective words c) := by
  unfold handleDirective
  split
  · simp only
    split_ifs
    · exact .fail _ _
    · exact .fail _ _
    · exact .fail _ _
    · split
      · exact .fail _ _
      · exact h
  · exact .fail _ _

theorem within_lineBreak (h : c.Within text) : (c.lineBreak?.getD c).Within text := by
  cases hd : c.lineBreak? with
  | none => exact h
  | some d => exact h.lineBreak hd

theorem ends_directive (h : c.Within text) (ds : Directives) :
    EndsAt text (directive ds c) := by
  unfold directive
  have hname := h.past_of_isPrefix (List.takeWhile_prefix fun ch => !isSpacing ch)
  have hend (words : Nat) := within_lineBreak (within_directiveWords hname words)
  simp only
  split
  case' isTrue => refine (Ends.fail _ _ : Ends text (fun _ => True) _).bind fun _ _ => ?_
  all_goals
    split
    · exact (ends_versionDirective _ _ _).bind fun _ _ => hend _
    · split
      · exact (ends_handleDirective (hend _) _).bind fun _ hd => hd
      · exact hend _

theorem ends_directives (h : c.Within text) (ds : Directives) (lines : Nat) :
    EndsAt text (directives ds c lines) := by
  induction lines generalizing c ds with
  | zero => exact h
  | succ lines ih =>
    rw [directives]
    simp only
    split
    · exact (ends_directive h.token.next ds).bind fun out hout => ih hout _
    · exact h.token

theorem ends_documentStart (h : c.Within text) (ds : Directives) :
    Ends text (fun d => d.Within text) (documentStart ds c) := by
  unfold documentStart
  split
  · rename_i rest _ hrest
    exact (h.past _ hrest).token
  · split
    · exact .fail _ _
    · exact h

theorem eq_of_startsMark {cs : List Char} (h : startsMark cs = true)
    (hdot : startsWith (· = '.') cs = true) : cs = ['.', '.', '.'] ++ cs.drop 3 := by
  match cs, h with
  | a :: b :: c :: rest, h =>
    obtain rfl : a = '.' := by simpa [startsWith] using hdot
    simp only [startsMark, Bool.and_eq_true, decide_eq_true_eq] at h
    obtain ⟨⟨⟨-, rfl⟩, rfl⟩, -⟩ := h
    rfl

theorem documentsFrom_of_isFinal (h : isFinal c = true) (count : Nat) :
    documentsFrom c count = .ok [] := by
  cases count with
  | zero => rfl
  | succ count =>
    rw [documentsFrom, if_pos h]
    rfl

/-- After a document the text has ended, unless there is a document mark. -/
theorem ends_document (h : c.Within text) :
    Ends text (fun out => out.2.Within text ∧ (isFinal out.2 = true ∨ HasMark text))
      (document c) := by
  unfold document
  simp only
  refine (ends_directives (c := { c with names := {}, handles := [] }) h _ _).bind
    fun start hstart => ?_
  refine (ends_documentStart hstart start.1).bind fun d hd => ?_
  refine (ends_read maxDepth _ _ hd).bind fun out hout => ?_
  have hafter := Cursor.Within.token hout
  split
  · rename_i hatMark
    have hmark := hafter.hasMark hatMark
    split
    · rename_i hdot
      have hstarts : startsMark out.2.token.rest = true := by
        rw [Cursor.atMark, Bool.and_eq_true] at hatMark
        exact hatMark.2
      exact ⟨(hafter.past _ (eq_of_startsMark hstarts hdot)).token, .inr hmark⟩
    · exact ⟨hafter, .inr hmark⟩
  · split
    · rename_i hfinal
      exact ⟨hafter, .inl hfinal⟩
    · exact .fail _ _

theorem ends_documentsFrom (h : c.Within text) (count : Nat) :
    Ends text (fun docs => docs.length ≤ 1 ∨ HasMark text) (documentsFrom c count) := by
  induction count generalizing c with
  | zero => exact .inl (Nat.zero_le 1)
  | succ count ih =>
    rw [documentsFrom]
    split
    · exact .inl (Nat.zero_le 1)
    · refine (ends_document h).bind fun out hout => ?_
      rcases hout.2 with hfinal | hmark
      · simp only [documentsFrom_of_isFinal hfinal]
        exact .inl (Nat.le_refl 1)
      · exact (ih hout.1).bind fun _ _ => .inr hmark

theorem mem_of_mem_normalized {cs : List Char} {ch : Char} (h : ch ∈ normalized cs)
    (hch : ch ≠ '\n') : ch ∈ cs := by
  have hended : ch ∈ (if (cs.getLast?.map isBreak).getD true then cs else cs ++ ['\n']) →
      ch ∈ cs := by
    split_ifs
    · exact id
    · intro h
      simpa [hch] using h
  unfold normalized at h
  simp only at h
  split at h
  · rename_i rest heq
    exact hended (heq ▸ List.mem_cons_of_mem _ h)
  · exact hended h

/-- The documents of a text are read from a place of it on, unless there is a null byte in it. -/
theorem documents_cases (cs : List Char) :
    (∃ c : Cursor, documents cs = c.fail .nullByte)
      ∨ ∃ (c : Cursor) (count : Nat), c.Within (normalized cs)
        ∧ documents cs = documentsFrom c count := by
  have hstart : Cursor.Within (normalized cs) { rest := normalized cs } :=
    ⟨[], [], [], rfl, rfl, .inl rfl, rfl, rfl⟩
  have hspaces := hstart.past_of_isPrefix (List.takeWhile_prefix (· = ' '))
  unfold documents
  simp only
  split
  · exact .inl ⟨_, rfl⟩
  · refine .inr ⟨_, _, ?_, rfl⟩
    exact hspaces

/-- A text is read as one document at most unless there is a document mark; and if it is not read,
there is a problem, or a tag asks for a text. -/
theorem ends_documents (cs : List Char) : Ends (normalized cs)
    (fun docs => docs.length ≤ 1 ∨ HasMark (normalized cs)) (documents cs) := by
  rcases documents_cases cs with ⟨c, heq⟩ | ⟨c, count, hc, heq⟩
  · rw [heq]
    exact .fail _ _
  · rw [heq]
    exact ends_documentsFrom hc count

end ParamForm.Yaml
