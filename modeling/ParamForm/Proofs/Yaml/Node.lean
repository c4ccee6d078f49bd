import ParamForm.Proofs.Yaml.BlockScalar
import ParamForm.Proofs.Yaml.Quoted
import ParamForm.Yaml.Document

/-!
# Written nodes

A written node has no properties, so that reading it comes down to reading its content
(`readWith_space`, `readWith_below`), and what is read of a scalar or a flow collection comes down
to the reader of its style.
-/

namespace ParamForm.Yaml

/-- Reads the content of a node without properties. -/
def readInside (child : Reader) (floor : Nat) (context : Context) (collections : Bool)
    (c : Cursor) : Except Fault (Node × Cursor) := do
  let (draft, d) ← insideDraft child floor context collections none none none c
  let (tag, v, e) ← resolve draft d
  let present := tag.isSome || draft.anchor.isSome || draft.content.isSome
  .ok (⟨tag, draft.content.bind (·.kind), v, present⟩, e)

/-- The beginning of a content that is no indicator of a block collection: a character that is
neither blank nor an indicator of something before a node, a hyphen only before something else than
a blank. -/
def opensContent : List Char → Bool
  | [] => false
  | c :: cs =>
    !isSpacing c && !(['#', '!', '&', '?', ':', '%'].contains c)
      && (c ≠ '-' || (!cs.isEmpty && !startsWith isSpacing cs))

section OpensContent

variable {text : List Char} (h : opensContent text = true) (rest : List Char)
include h

theorem opensContent_append : opensContent (text ++ rest) = true := by
  cases text with
  | nil => simp [opensContent] at h
  | cons c cs =>
    cases cs with
    | nil =>
      simp only [opensContent] at h
      simp only [opensContent, List.cons_append, List.nil_append]
      have hc : c ≠ '-' := by
        rintro rfl
        simp at h
      simp only [Bool.and_eq_true] at h ⊢
      exact ⟨h.1, by simp [hc]⟩
    | cons d ds => exact h

theorem ne_nil_of_opensContent : text ≠ [] := by
  rintro rfl
  simp [opensContent] at h

theorem startsToken_of_opensContent : startsToken text = true := by
  cases text with
  | nil => rfl
  | cons c cs =>
    simp only [opensContent, List.contains_cons, Bool.and_eq_true, Bool.not_eq_true',
      Bool.or_eq_false_iff, beq_eq_false_iff_ne] at h
    simp [startsToken, h.1.1, h.1.2.1]

theorem startsProperty_of_opensContent :
    startsWith (· = '!') text = false ∧ startsWith (· = '&') text = false := by
  cases text with
  | nil => exact ⟨rfl, rfl⟩
  | cons c cs =>
    simp only [opensContent, List.contains_cons, Bool.and_eq_true, Bool.not_eq_true',
      Bool.or_eq_false_iff, beq_eq_false_iff_ne] at h
    simp [startsWith, h.1.2]

theorem startsEntry_of_opensContent : startsEntry text = false := by
  cases text with
  | nil => rfl
  | cons c cs =>
    by_cases hc : c = '-'
    · subst hc
      simp only [opensContent, Bool.and_eq_true, Bool.or_eq_true, Bool.not_eq_true'] at h
      have hspacing : startsWith isSpacing cs = false := by
        have := h.2
        simp only [ne_eq, not_true_eq_false, decide_false, Bool.false_eq_true, false_or] at this
        exact this.2
      simp [startsEntry, hspacing]
    · simp [startsEntry, startsWith, hc]

theorem startsExplicit_of_opensContent {indicator : Char}
    (hi : indicator = '?' ∨ indicator = ':') :
    BlockMapping.startsExplicit indicator text = false := by
  cases text with
  | nil => rfl
  | cons c cs =>
    simp only [opensContent, List.contains_cons, Bool.and_eq_true, Bool.not_eq_true',
      Bool.or_eq_false_iff, beq_eq_false_iff_ne] at h
    rcases hi with rfl | rfl <;> simp [BlockMapping.startsExplicit, startsWith, h.1.2]

end OpensContent

theorem tag?_of_startsWith {c : Cursor} (h : startsWith (· = '!') c.rest = false) :
    tag? c = .ok none := by
  unfold tag?
  split
  · rename_i rest hr
    simp [hr, startsWith] at h
  · rfl

theorem anchor?_of_startsWith {c : Cursor} (h : startsWith (· = '&') c.rest = false) :
    anchor? c = .ok none := by
  rw [anchor?, if_neg (by simp [h])]

theorem alias?_of_startsWith {c : Cursor} (h : startsWith (· = '*') c.rest = false) :
    alias? c = .ok none := by
  rw [alias?, if_neg (by simp [h])]

/-- Where no property begins, reading a node comes down to reading its content: `breaks` line ends
and the blanks around them are stepped over first. -/
theorem readWith_eq_readInside {child : Reader} {r : Request} {c d : Cursor} {breaks : Nat}
    (hsep : (if r.seek then c.separation true else (0, c)) = (breaks, d))
    (hfloor : breaks ≠ 0 → r.floor ≤ d.indent)
    (htag : startsWith (· = '!') d.rest = false) (hanchor : startsWith (· = '&') d.rest = false) :
    Node.readWith child r c
      = readInside child (if r.context.allowsBlocks then r.floor else r.floor - 1) r.context
          (r.context.allowsBlocks && (breaks ≠ 0 || r.compact)) d := by
  have hstanding : (if breaks ≠ 0 then Standing.of r.floor d.indent else .inside) = .inside := by
    split_ifs with hb
    · rw [Standing.of, if_pos (hfloor hb)]
    · rfl
  simp only [ne_eq] at hstanding
  simp only [Node.readWith, Properties.ofRequest, hsep, ne_eq, decide_not]
  simp [hstanding, Properties.read, Properties.repeated?, tag?_of_startsWith htag,
    anchor?_of_startsWith hanchor, draft, readInside, bind, Except.bind]

/-- On the place itself, or after a space where the node may begin later. -/
theorem readWith_space {child : Reader} {r : Request} {c : Cursor} (text : List Char)
    (hc : c.rest = List.replicate (if r.seek then 1 else 0) ' ' ++ text)
    (htoken : startsToken text = true) (htag : startsWith (· = '!') text = false)
    (hanchor : startsWith (· = '&') text = false) :
    Node.readWith child r c
      = readInside child (if r.context.allowsBlocks then r.floor else r.floor - 1) r.context
          (r.context.allowsBlocks && r.compact)
          (c.past (List.replicate (if r.seek then 1 else 0) ' ') text) := by
  have hsep : (if r.seek then c.separation true else (0, c))
      = (0, c.past (List.replicate (if r.seek then 1 else 0) ' ') text) := by
    cases hseek : r.seek with
    | true =>
      rw [hseek] at hc
      exact Cursor.separation_space true hc htoken
    | false =>
      rw [hseek] at hc
      simp only [Bool.false_eq_true, if_false, List.replicate_zero] at hc ⊢
      rw [Cursor.past_nil (by simpa using hc)]
  rw [readWith_eq_readInside hsep (fun h => absurd rfl h) htag hanchor]
  simp

/-- On a later line that is indented enough, where block collections may begin. -/
theorem readWith_below {child : Reader} {r : Request} {c : Cursor} {text : List Char} {k : Nat}
    (hseek : r.seek = true) (hblocks : r.context.allowsBlocks = true) (hk : r.floor ≤ k)
    (hc : c.rest = '\n' :: (List.replicate k ' ' ++ text))
    (htoken : startsToken text = true) (htag : startsWith (· = '!') text = false)
    (hanchor : startsWith (· = '&') text = false) :
    Node.readWith child r c = readInside child r.floor r.context true (c.below k text) := by
  have hsep : (if r.seek then c.separation true else (0, c)) = (1, c.below k text) := by
    rw [if_pos hseek, Cursor.separation_below true hc htoken]
  rw [readWith_eq_readInside hsep (fun _ => hk) htag hanchor, hblocks]
  simp

/-- On the place itself, where no block collection may begin. -/
theorem read_flow {depth floor : Nat} {context : Context} {compact : Bool} {c : Cursor}
    (hcontext : context.allowsBlocks = false) (hopens : opensContent c.rest = true) :
    Node.read (depth + 1) ⟨floor + 1, context, false, compact⟩ c
      = readInside (Node.read depth) floor context false c := by
  have hproperty := startsProperty_of_opensContent hopens
  rw [Node.read, readWith_space c.rest (by simp) (startsToken_of_opensContent hopens)
    hproperty.1 hproperty.2]
  simp only [hcontext, Bool.false_eq_true, if_false, List.replicate_zero, Nat.add_sub_cancel,
    Bool.false_and]
  rw [Cursor.past_nil rfl]

theorem flowCollection?_of_startsWith {child : Reader} {floor : Nat} {anchor : Option String}
    {c : Cursor} (hlist : startsWith (· = '[') c.rest = false)
    (hrecord : startsWith (· = '\x7b') c.rest = false) :
    flowCollection? child floor anchor c = .ok none := by
  unfold flowCollection?
  simp only []
  split
  · rename_i rest hr
    simp [hr, startsWith] at hlist
  · rename_i rest hr
    simp [hr, startsWith] at hrecord
  · rfl

theorem quoted?_of_startsWith {c : Cursor} (hsingle : startsWith (· = '\x27') c.rest = false)
    (hdouble : startsWith (· = '"') c.rest = false) : quoted? c = .ok none := by
  unfold quoted?
  split
  · rename_i rest hr
    simp [hr, startsWith] at hsingle
  · rename_i rest hr
    simp [hr, startsWith] at hdouble
  · rfl

theorem block?_of_startsWith (floor : Nat) {c : Cursor}
    (hliteral : startsWith (· = '|') c.rest = false)
    (hfolded : startsWith (· = '>') c.rest = false) : block? floor c = .ok none := by
  unfold block?
  split
  · rename_i ch rest hr
    simp only [hr, startsWith, decide_eq_false_iff_not] at hliteral hfolded
    simp [hliteral, hfolded]
  · rfl

/-- The scalar of a text. -/
def scalarContent (cs : List Char) : Content :=
  ⟨some .scalar, .leaf (.text (String.ofList cs))⟩

theorem leaf?_of_quoted {floor : Nat} {context : Context} {c d : Cursor} {cs : List Char}
    (hliteral : startsWith (· = '|') c.rest = false)
    (hfolded : startsWith (· = '>') c.rest = false) (hq : quoted? c = .ok (some (cs, d))) :
    leaf? floor context c = .ok (some (scalarContent cs, false, d)) := by
  have hblock := block?_of_startsWith floor hliteral hfolded
  unfold leaf?
  cases context.allowsBlocks <;>
    simp [hblock, hq, bind, Except.bind, pure, Except.pure, scalarContent]

theorem leaf?_of_plain {floor : Nat} {context : Context} {c d : Cursor} {cs : List Char}
    (hliteral : startsWith (· = '|') c.rest = false)
    (hfolded : startsWith (· = '>') c.rest = false) (hq : quoted? c = .ok none)
    (halias : startsWith (· = '*') c.rest = false)
    (hp : plain? floor (context = .flowIn) c = .ok (some (cs, d))) :
    leaf? floor context c = .ok (some (scalarContent cs, true, d)) := by
  have hblock := block?_of_startsWith floor hliteral hfolded
  have halias := alias?_of_startsWith halias
  unfold leaf?
  cases context.allowsBlocks <;>
    simp [hblock, hq, halias, hp, bind, Except.bind, pure, Except.pure, scalarContent]

/-- A node whose content is a quoted or literal scalar. -/
theorem readInside_of_leaf {child : Reader} {floor : Nat} {context : Context} {c d : Cursor}
    {cs : List Char} (hflow : flowCollection? child floor none c = .ok none)
    (hleaf : leaf? floor context c = .ok (some (scalarContent cs, false, d))) :
    readInside child floor context false c
      = .ok (⟨none, some .scalar, .leaf (.text (String.ofList cs)), true⟩, d) := by
  simp [readInside, insideDraft, flowDraft, hflow, keyedMapping?, hleaf, resolve, scalarContent,
    bind, Except.bind, pure, Except.pure]

/-- A node whose content is a plain scalar that no implicit type takes. -/
theorem readInside_of_plain {child : Reader} {floor : Nat} {context : Context} {c d : Cursor}
    {cs : List Char} (hflow : flowCollection? child floor none c = .ok none)
    (hleaf : leaf? floor context c = .ok (some (scalarContent cs, true, d)))
    (himplicit : implicit? (.leaf (.text (String.ofList cs))) = none) :
    readInside child floor context false c
      = .ok (⟨some plainTag, some .scalar, .leaf (.text (String.ofList cs)), true⟩, d) := by
  simp [readInside, insideDraft, flowDraft, hflow, keyedMapping?, hleaf, resolve, scalarContent,
    isNullValue, himplicit, bind, Except.bind, pure, Except.pure]

/-- A node whose content is a plain scalar of an implicit type. -/
theorem readInside_of_implicit {child : Reader} {floor : Nat} {context : Context} {c d : Cursor}
    {cs : List Char} {t : CoreType} {v : Linked}
    (hflow : flowCollection? child floor none c = .ok none)
    (hleaf : leaf? floor context c = .ok (some (scalarContent cs, true, d)))
    (himplicit : implicit? (.leaf (.text (String.ofList cs))) = some (t, .value v)) :
    readInside child floor context false c = .ok (⟨some t.tag, some .scalar, v, true⟩, d) := by
  simp [readInside, insideDraft, flowDraft, hflow, keyedMapping?, hleaf, resolve, scalarContent,
    isNullValue, himplicit, constructed, bind, Except.bind, pure, Except.pure]

/-- A node whose content is a flow collection. -/
theorem readInside_of_flow {child : Reader} {floor : Nat} {context : Context} {c d : Cursor}
    {content : Content} (hflow : flowCollection? child floor none c = .ok (some (content, d))) :
    readInside child floor context false c
      = .ok (⟨none, content.kind, content.value, true⟩, d) := by
  simp [readInside, insideDraft, flowDraft, hflow, resolve, bind, Except.bind, pure, Except.pure]

end ParamForm.Yaml
