import ParamForm.Proofs.Yaml.BlockScalar
import ParamForm.Proofs.Yaml.Inline

/-!
# Scalars read back

Whatever style the writer chooses for a text, the text is read back: on one line as a node on one
line (`inline_scalarText`), and a text with line ends that is written line by line as a literal
scalar (`readInside_literal`). The choice is sound because a text that is left without quotes has no
implicit type, and the others are in a style that is never resolved.
-/

namespace ParamForm.Yaml

theorem startsWith_quote_of_follows {floor : Nat} {rest : List Char} (h : Follows floor rest) :
    startsWith (· = '\x27') rest = false := by
  cases h <;> rfl

section Quoted

variable {text cs : List Char} {quote : Char} (hquote : quote = '\x27' ∨ quote = '"')
  (htext : startsWith (· = quote) text = true)
include hquote htext

theorem startsWith_of_quote {p : Char → Bool} (hsingle : p '\x27' = false) (hdouble : p '"' = false)
    (rest : List Char) : startsWith p (text ++ rest) = false := by
  cases text with
  | nil => simp [startsWith] at htext
  | cons c cs =>
    simp only [startsWith, decide_eq_true_eq] at htext
    subst htext
    rcases hquote with rfl | rfl
    · exact hsingle
    · exact hdouble

theorem opensContent_of_quote : opensContent text = true := by
  cases text with
  | nil => simp [startsWith] at htext
  | cons c cs =>
    simp only [startsWith, decide_eq_true_eq] at htext
    subst htext
    rcases hquote with rfl | rfl <;> rfl

/-- A text in quotes that are read is a node on one line. -/
theorem inline_of_quoted (hnull : '\x00' ∉ text)
    (hread : ∀ (floor : Nat) (c : Cursor) (rest : List Char), Follows floor rest → c.Ready →
      c.rest = text ++ rest → quoted? c = .ok (some (cs, c.past text rest))) :
    Inline text (.leaf (.text (String.ofList cs))) where
  opens := opensContent_of_quote hquote htext
  noNull := hnull
  reads := by
    refine ⟨none, some .scalar, by decide, fun child floor context c rest _ hready hrest hc => ?_⟩
    have hstarts {p : Char → Bool} (hsingle : p '\x27' = false) (hdouble : p '"' = false) :
        startsWith p c.rest = false := by
      rw [hc]
      exact startsWith_of_quote hquote htext hsingle hdouble rest
    refine readInside_of_leaf ?_ (leaf?_of_quoted ?_ ?_ (hread floor c rest hrest hready hc))
    · exact flowCollection?_of_startsWith (hstarts rfl rfl) (hstarts rfl rfl)
    · exact hstarts rfl rfl
    · exact hstarts rfl rfl

end Quoted

theorem inline_single {cs : List Char} (h : cs.all isWritable = true) :
    Inline ('\x27' :: (doubledQuotes cs ++ ['\x27'])) (.leaf (.text (String.ofList cs))) := by
  have hnull : '\x00' ∉ doubledQuotes cs := fun hmem =>
    noNull_of_isWritable h (mem_doubledQuotes hmem)
  refine inline_of_quoted (.inl rfl) rfl (by simpa using hnull)
    fun floor c rest hrest hready hc => ?_
  exact quoted?_single h hready.started (startsWith_quote_of_follows hrest) (by simpa using hc)

theorem inline_double (cs : List Char) :
    Inline ('"' :: (cs.flatMap escaped ++ ['"'])) (.leaf (.text (String.ofList cs))) := by
  refine inline_of_quoted (.inr rfl) rfl (by simp [quoting_escaped.noNull_flatMap])
    fun floor c rest hrest hready hc => ?_
  exact quoting_escaped.quoted? hready.started (by simpa using hc)

section Plain

variable {cs : List Char} (hline : PlainLine cs) (hopens : opensContent cs = true)

theorem startsWith_of_startsPlain {p : Char → Bool} {inFlow : Bool} {cs : List Char}
    (h : startsPlain inFlow cs = true)
    (hp : ∀ c, p c = true → isFlowIndicator c = true ∨ c ∈ indicators) :
    startsWith p cs = false := by
  cases cs with
  | nil => rfl
  | cons c cs =>
    rw [startsPlain] at h
    split_ifs at h with hc
    all_goals
      simp only [Bool.or_eq_true, not_or, List.contains_iff_mem] at hc
      by_contra hcon
      rcases hp c (by simpa [startsWith] using hcon) with hflow | hmem
      · exact hc.1.2 hflow
      · exact hc.2 hmem

theorem leaf?_of_startsPlain {floor : Nat} {context : Context} {inFlow : Bool} {c d : Cursor}
    {cs : List Char} (hcontext : decide (context = .flowIn) = inFlow)
    (hstarts : startsPlain inFlow c.rest = true)
    (hplain : plain? floor inFlow c = .ok (some (cs, d))) (child : Reader) :
    flowCollection? child floor none c = .ok none
      ∧ leaf? floor context c = .ok (some (scalarContent cs, true, d)) := by
  have hnone (ch : Char) (hch : isFlowIndicator ch = true ∨ ch ∈ indicators) :
      startsWith (· = ch) c.rest = false := by
    refine startsWith_of_startsPlain hstarts fun d hd => ?_
    obtain rfl : d = ch := by simpa using hd
    exact hch
  refine ⟨flowCollection?_of_startsWith (hnone _ (by decide)) (hnone _ (by decide)), ?_⟩
  exact leaf?_of_plain (hnone _ (by decide)) (hnone _ (by decide))
    (quoted?_of_startsWith (hnone _ (by decide)) (hnone _ (by decide))) (hnone _ (by decide))
    (by rw [hcontext]; exact hplain)

include hline in
theorem PlainLine.leaf?_append {floor : Nat} {context : Context} {c : Cursor} {rest : List Char}
    (hcontext : context ≠ .flowIn) (hready : c.Ready) (hrest : Follows floor rest)
    (hc : c.rest = cs ++ rest) (child : Reader) :
    flowCollection? child floor none c = .ok none
      ∧ leaf? floor context c = .ok (some (scalarContent cs, true, c.past cs rest)) := by
  have hstarts : startsPlain false c.rest = true := by
    rw [hc]
    exact hline.starts rest
  exact leaf?_of_startsPlain (decide_eq_false hcontext) hstarts
    (plain?_append hline hrest hc hready.tab hready.unmarked) child

include hline hopens

theorem inline_plain (himplicit : implicit? (.leaf (.text (String.ofList cs))) = none) :
    Inline cs (.leaf (.text (String.ofList cs))) where
  opens := hopens
  noNull := noNull_of_isWritable hline.writable
  reads := by
    refine ⟨some plainTag, some .scalar, by decide,
      fun child floor context c rest hcontext hready hrest hc => ?_⟩
    obtain ⟨hflow, hleaf⟩ := hline.leaf?_append hcontext hready hrest hc child
    exact readInside_of_plain hflow hleaf himplicit

theorem inline_implicit {t : CoreType} {v : Linked} (ht : t.tag ≠ CoreType.merge.tag)
    (himplicit : implicit? (.leaf (.text (String.ofList cs))) = some (t, .value v)) :
    Inline cs v where
  opens := hopens
  noNull := noNull_of_isWritable hline.writable
  reads := by
    refine ⟨some t.tag, some .scalar, by simpa using ht,
      fun child floor context c rest hcontext hready hrest hc => ?_⟩
    obtain ⟨hflow, hleaf⟩ := hline.leaf?_append hcontext hready hrest hc child
    exact readInside_of_implicit hflow hleaf himplicit

end Plain

theorem leaf?_of_literal {floor : Nat} {c : Cursor} {rest : List Char} (hc : c.rest = '|' :: rest) :
    leaf? floor .flowOut c = .ok none := by
  have hnone {p : Char → Bool} (hp : p '|' = false) : startsWith p c.rest = false := by
    rw [hc]
    exact hp
  have hquoted : quoted? c = .ok none := quoted?_of_startsWith (hnone rfl) (hnone rfl)
  have halias : alias? c = .ok none := alias?_of_startsWith (hnone rfl)
  have hplain : plain? floor false c = .ok none := by
    rw [plain?, hc]
    rfl
  simp [leaf?, Context.allowsBlocks, hquoted, halias, hplain, bind, Except.bind, pure, Except.pure]

section Literal

variable {cs content : List Char} {floor k : Nat} {context : Context} {c : Cursor} (hne : cs ≠ [])
  (hw : cs.all (fun ch => isWritable ch || ch = '\n') = true) (hk : k < floor)
  (hblocks : context.allowsBlocks = true) (hcontent : startsToken content = true)
  (hc : c.rest = literalHeader cs ++ '\n' :: withoutLastBreak (indented (floor + 1) true cs)
    ++ '\n' :: (List.replicate k ' ' ++ content))
include hne hw hk hblocks hcontent hc

theorem flowDraft_literal (child : Reader) :
    ∃ d, flowDraft child floor context none none none c
        = .ok (⟨none, none, some (scalarContent cs)⟩, d)
      ∧ d.AtLine k content ∧ c.line < d.line := by
  obtain ⟨d, hread, hline⟩ := block?_literal hne hw hk hcontent hc
  have hbar : ∃ rest, c.rest = '|' :: rest := by
    rw [hc, literalHeader_eq]
    exact ⟨_, rfl⟩
  obtain ⟨rest, hrest⟩ := hbar
  have hnone {p : Char → Bool} (hp : p '|' = false) : startsWith p c.rest = false := by
    rw [hrest]
    exact hp
  have hflow : flowCollection? child floor none c = .ok none :=
    flowCollection?_of_startsWith (hnone rfl) (hnone rfl)
  refine ⟨d, ?_, hline⟩
  simp [flowDraft, hflow, keyedMapping?, leaf?, hblocks, hread, scalarContent, bind, Except.bind,
    pure, Except.pure]

/-- A literal scalar is read, also after it was tried as the key of a block mapping. -/
theorem readInside_literal (htab : c.tab = none) (depth : Nat) (child : Reader)
    (collections : Bool) (hchild : collections = true → child = Node.read (depth + 1)) :
    ∃ d, readInside child floor context collections c
        = .ok (⟨none, some .scalar, .leaf (.text (String.ofList cs)), true⟩, d)
      ∧ d.AtLine k content ∧ c.line < d.line := by
  obtain ⟨d, hdraft, hline⟩ := flowDraft_literal hne hw hk hblocks hcontent hc child
  refine ⟨d, ?_, hline⟩
  cases collections with
  | false =>
    simp [readInside, insideDraft, hdraft, resolve, scalarContent, bind, Except.bind]
  | true =>
    obtain ⟨rest, hrest⟩ : ∃ rest, c.rest = '|' :: rest := by
      rw [hc, literalHeader_eq]
      exact ⟨_, rfl⟩
    have hopens : opensContent c.rest = true := by rw [hrest]; rfl
    have hkey : child ⟨floor + 1, .flowOut, false, true⟩ c
        = .ok (⟨none, none, .leaf .null, false⟩, c) := by
      rw [hchild rfl, read_flow rfl hopens]
      have hnone {p : Char → Bool} (hp : p '|' = false) : startsWith p c.rest = false := by
        rw [hrest]
        exact hp
      have hflow : flowCollection? (Node.read depth) floor none c = .ok none :=
        flowCollection?_of_startsWith (hnone rfl) (hnone rfl)
      simp [readInside, insideDraft, flowDraft, hflow, keyedMapping?, leaf?_of_literal hrest,
        resolve, bind, Except.bind, pure, Except.pure]
    have hempty : c.rest.isEmpty = false := by simp [hrest]
    simp [readInside, insideDraft, blockSequence?_of_opensContent hopens, htab, hempty,
      blockMapping_nothing hopens htab hkey rfl, hdraft, resolve, scalarContent, bind, Except.bind]

end Literal

theorem inline_null : Inline "null".toList (.leaf .null) := by
  refine inline_implicit (t := .null) ⟨fun rest => rfl, rfl, rfl, rfl⟩ rfl (by decide) rfl

theorem inline_bool (b : Bool) :
    Inline (if b then "true".toList else "false".toList) (.leaf (.bool b)) := by
  cases b
  · exact inline_implicit (t := .bool) ⟨fun rest => rfl, rfl, rfl, rfl⟩ rfl (by decide) rfl
  · exact inline_implicit (t := .bool) ⟨fun rest => rfl, rfl, rfl, rfl⟩ rfl (by decide) rfl

theorem inline_of_flow {text : List Char} (content : Content) (hopens : opensContent text = true)
    (hnull : '\x00' ∉ text)
    (hread : ∀ (child : Reader) (floor : Nat) (c : Cursor) (rest : List Char),
      c.rest = text ++ rest →
      flowCollection? child floor none c = .ok (some (content, c.past text rest))) :
    Inline text content.value where
  opens := hopens
  noNull := hnull
  reads := ⟨none, content.kind, by decide, fun child floor _ c rest _ _ _ hc =>
    readInside_of_flow (hread child floor c rest hc)⟩

theorem flowEntries_close {α : Type} {child : Reader} {floor : Nat} {close : Char}
    {add : α → FlowEntry → Cursor → Except Fault (α × Cursor)} {acc : α} {c : Cursor}
    {rest : List Char} (hc : c.rest = close :: rest) (hclose : startsToken c.rest = true)
    (entries : Nat) :
    flowEntries child floor close add acc c (entries + 1) = .ok (acc, c.past [close] rest) := by
  have htoken := Cursor.token_of_startsToken hclose
  have hnext := Cursor.next_eq hc
  simp [flowEntries, htoken, hc, startsWith, hnext]

section Brackets

variable {child : Reader} {floor : Nat} {c : Cursor} {rest : List Char}

theorem flowCollection?_list (hc : c.rest = '[' :: rest) :
    flowCollection? child floor none c
      = flowEntries child floor ']' (addElement none) [] c.next (c.rest.length + 1)
          >>= fun q => .ok (some (⟨some .sequence, .list q.1.reverse⟩, q.2)) := by
  simp only [flowCollection?, hc, Cursor.bindOpen_none]
  rfl

theorem flowCollection?_record (hc : c.rest = '\x7b' :: rest) :
    flowCollection? child floor none c
      = flowEntries child floor '\x7d' (addPair none) {} c.next (c.rest.length + 1)
          >>= fun q => .ok (some (⟨some .mapping, .record q.1.fields⟩, q.2)) := by
  simp only [flowCollection?, hc, Cursor.bindOpen_none]
  rfl

end Brackets

theorem inline_emptyList : Inline "[]".toList (.list []) := by
  refine inline_of_flow ⟨some .sequence, .list []⟩ rfl (by decide)
    fun child floor c rest hc => ?_
  have hc' : c.rest = '[' :: ']' :: rest := hc
  have hnext := Cursor.next_eq hc'
  have hentries : flowEntries child floor ']' (addElement none) [] c.next (c.rest.length + 1)
      = .ok ([], c.next.past [']'] rest) :=
    flowEntries_close (by rw [hnext]; rfl) (by rw [hnext]; rfl) c.rest.length
  rw [flowCollection?_list hc', hentries, hnext, Cursor.past_past]
  rfl

theorem inline_emptyRecord : Inline ['\x7b', '\x7d'] (.record []) := by
  refine inline_of_flow ⟨some .mapping, .record []⟩ rfl (by decide)
    fun child floor c rest hc => ?_
  have hc' : c.rest = '\x7b' :: '\x7d' :: rest := hc
  have hnext := Cursor.next_eq hc'
  have hentries : flowEntries child floor '\x7d' (addPair none) {} c.next (c.rest.length + 1)
      = .ok ({}, c.next.past ['\x7d'] rest) :=
    flowEntries_close (by rw [hnext]; rfl) (by rw [hnext]; rfl) c.rest.length
  rw [flowCollection?_record hc', hentries, hnext, Cursor.past_past]
  rfl

theorem isWritable_of_isPlace {c : Char} (h : isPlace c = true) : isWritable c = true := by
  simp only [isPlace, Char.isDigit, Bool.or_eq_true, Bool.and_eq_true, decide_eq_true_eq] at h
  rcases h with ⟨hlow, hhigh⟩ | rfl
  · have hlow' : 48 ≤ c.toNat := hlow
    have hhigh' : c.toNat ≤ 57 := hhigh
    simp only [isWritable, Bool.or_eq_true, Bool.and_eq_true, decide_eq_true_eq]
    omega
  · decide

theorem all_isWritable_of_base60From :
    ∀ (cs : List Char) (places colon : Bool), base60From places colon cs = true →
      cs.all isWritable = true
  | [], _, _, _ => rfl
  | c :: cs, places, colon, h => by
    rw [base60From] at h
    split_ifs at h with hplace hcolon
    · rw [List.all_cons, isWritable_of_isPlace hplace, Bool.true_and]
      exact all_isWritable_of_base60From cs _ _ h
    · rw [Bool.and_eq_true] at h
      rw [List.all_cons, hcolon, all_isWritable_of_base60From cs _ _ h.2]
      rfl
    · simp only [Bool.and_eq_true, decide_eq_true_eq] at h
      rw [List.all_cons, h.1.1.1, all_of_imp (fun _ => isWritable_of_isPlace) h.2]
      rfl

theorem all_isWritable_of_isBase60 {cs : List Char} (h : isBase60 cs = true) :
    cs.all isWritable = true := by
  rw [isBase60, signed.eq_def] at h
  split at h
  · rw [List.all_cons, all_isWritable_of_base60From _ _ _ h]
    rfl
  · rw [List.all_cons, all_isWritable_of_base60From _ _ _ h]
    rfl
  · exact all_isWritable_of_base60From _ _ _ h

theorem all_isWritable_of_booleanWords {cs : List Char}
    (h : booleanWords.contains (String.ofList cs) = true) : cs.all isWritable = true := by
  have hwords : ∀ w ∈ booleanWords, w.toList.all isWritable = true := by decide
  rw [List.contains_iff_mem] at h
  simpa using hwords _ h

/-- What each style of a text says about it. -/
theorem ofText_spec (isKey : Bool) (cs : List Char) :
    match ScalarStyle.ofText isKey cs with
    | .plain => cs.all isWritable = true ∧ isPlainText cs = true
        ∧ implicit? (.leaf (.text (String.ofList cs))) = none
    | .single => cs.all isWritable = true
    | .double => True
    | .literal => isKey = false ∧ cs ≠ [] ∧ cs.all (fun c => isWritable c || c = '\n') = true := by
  unfold ScalarStyle.ofText
  split_ifs with h1 h2 h3 h4
  · simp only [Bool.or_eq_true, List.isEmpty_iff] at h1
    rcases h1 with (rfl | h1) | h1
    · rfl
    · exact all_isWritable_of_booleanWords h1
    · exact all_isWritable_of_isBase60 h1
  · trivial
  all_goals
    simp only [Bool.not_eq_true', Bool.not_eq_false] at h2
  · rw [List.contains_iff_mem] at h3
    rw [List.all_eq_true] at h2
    have hkey : isKey = false := by
      have := h2 _ h3
      simpa [isWritable] using this
    subst hkey
    exact ⟨rfl, List.ne_nil_of_mem h3, by rw [List.all_eq_true]; simpa using h2⟩
  all_goals
    rw [Bool.not_eq_true, ← Bool.not_eq_true, List.contains_iff_mem] at h3
    have hw : cs.all isWritable = true := by
      rw [List.all_eq_true] at h2 ⊢
      intro c hc
      have hne : c ≠ '\n' := fun h => h3 (h ▸ hc)
      simpa [hne] using h2 c hc
  · rw [Bool.and_eq_true, Option.isNone_iff_eq_none] at h4
    exact ⟨hw, h4⟩
  · exact hw

theorem plainLine_of_isPlainText {cs : List Char} (hw : cs.all isWritable = true)
    (h : isPlainText cs = true) : PlainLine cs ∧ opensContent cs = true := by
  simp only [isPlainText, Bool.and_eq_true] at h
  obtain ⟨⟨hfirst, hlast⟩, hfollow⟩ := h
  cases cs with
  | nil => simp [startsWith] at hfirst
  | cons c cs =>
    simp only [startsWith, isWritableFirst, Bool.and_eq_true, Bool.not_eq_true',
      List.contains_cons, Bool.or_eq_false_iff, beq_eq_false_iff_ne] at hfirst
    obtain ⟨⟨⟨⟨hc, hwhite⟩, hflow⟩, hindicator⟩, hminus, hquestion, hcolon, -⟩ := hfirst
    have hbreak := isBreak_of_isWritable hc
    have hspacing : isSpacing c = false := by simp [isSpacing, hwhite, hbreak]
    refine ⟨⟨fun rest => ?_, hw, hfollow, by simpa using hlast⟩, ?_⟩
    · rw [List.cons_append, startsPlain, if_neg (by simp [hspacing, hflow]; simpa using hindicator)]
      simp [hminus, hquestion]
    · have hsome : ∀ d ∈ ['#', '!', '&', '%'], c ≠ d := by
        intro d hd hcd
        subst hcd
        rw [← Bool.not_eq_true, List.contains_iff_mem] at hindicator
        exact hindicator ((by decide : ['#', '!', '&', '%'] ⊆ indicators) hd)
      simp only [List.forall_mem_cons] at hsome
      simp [opensContent, hspacing, hminus, hquestion, hcolon, hsome]

/-- A text that is not written line by line is a node on one line. -/
theorem inline_scalarText (level : Nat) {isKey : Bool} {cs : List Char}
    (h : ScalarStyle.ofText isKey cs ≠ .literal) :
    Inline (scalarText level isKey cs) (.leaf (.text (String.ofList cs))) := by
  have hspec := ofText_spec isKey cs
  unfold scalarText
  cases hstyle : ScalarStyle.ofText isKey cs with
  | plain =>
    rw [hstyle] at hspec
    obtain ⟨hw, hplain, himplicit⟩ := hspec
    obtain ⟨hline, hopens⟩ := plainLine_of_isPlainText hw hplain
    exact inline_plain hline hopens himplicit
  | single =>
    rw [hstyle] at hspec
    exact inline_single hspec
  | double => exact inline_double cs
  | literal => exact absurd hstyle h

theorem inline_key (level : Nat) (cs : List Char) :
    Inline (scalarText level true cs) (.leaf (.text (String.ofList cs))) := by
  refine inline_scalarText level fun h => ?_
  have hspec := ofText_spec true cs
  rw [h] at hspec
  exact absurd hspec.1 (by decide)

end ParamForm.Yaml
