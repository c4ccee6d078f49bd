import ParamForm.Proofs.Yaml.Announced.Name

/-!
# Values that a text announces

What a document is depends on what stands in its text: it is binary data only if there is an
exclamation mark, as every tag has one, and a point of time only if there is one or four digits with
a hyphen after them (`announced_of_load`). An attempt at a block mapping may come back with a single
node, which was read as its first key, or with nothing, and then the reading goes on from a place
that is still known (`BlockMapping.told_read`).
-/

namespace ParamForm.Yaml

variable {text : List Char} {c : Cursor}

/-- Whether a content is a text that is a timestamp only after a year. -/
def Content.IsPlain (text : List Char) (content : Content) : Prop :=
  ∃ s : String, content = ⟨some .scalar, .leaf (.text s)⟩
    ∧ ∀ ms, timestamp? s.toList = some ms → HasYear text

/-- What was read of a node, where no tag stands in the text: a plain scalar, to be tried against
the implicit types, or what is announced. If there was nothing to read, the place is still known. -/
structure Drafted (text : List Char) (out : Draft × Cursor) : Prop where
  content : (out.1.tag = none ∧ ∀ content ∈ out.1.content, content.value.Announced text)
    ∨ out.1.tag = some plainTag ∧ ∃ content, out.1.content = some content ∧ content.IsPlain text
  absent : out.1.anchor = none → out.1.content = none → out.2.Known text

theorem Drafted.of_content {anchor : Option String} {content : Content} {d : Cursor}
    (h : content.value.Announced text) : Drafted text (⟨none, anchor, some content⟩, d) where
  content := .inl ⟨rfl, by simpa using h⟩
  absent _ h := nomatch h

theorem Drafted.of_absent {anchor : Option String} {d : Cursor} (h : anchor = none → d.Known text) :
    Drafted text (⟨none, anchor, none⟩, d) where
  content := .inl ⟨rfl, by simp⟩
  absent hanchor _ := h hanchor

theorem announced_resolve {draft : Draft} (h : Drafted text (draft, c)) :
    Yields (fun out => out.2.1.Announced text
      ∧ (draft.anchor = none → draft.content = none → out.2.2 = c)) (resolve draft c) := by
  rcases h.content with ⟨htag, hcontent⟩ | ⟨htag, content, hcontent, s, rfl, hyear⟩
  · simp only at htag hcontent
    unfold resolve
    simp only [htag]
    refine .ok ⟨?_, fun hanchor _ => by rw [hanchor]; rfl⟩
    cases hdraft : draft.content with
    | none => trivial
    | some content => exact hcontent content hdraft
  · simp only at htag hcontent
    unfold resolve
    simp only [htag, hcontent, Option.map_some, Option.getD_some, Option.bind_some, if_true]
    split
    · exact .fail _ _
    · split
      · rename_i t made himplicit
        cases made with
        | value v => exact .ok ⟨announced_of_implicit? hyear himplicit, fun _ h => nomatch h⟩
        | refused => exact .fail _ _
        | noText => nofun
      · exact .ok ⟨trivial, fun _ h => nomatch h⟩

theorem names_anchorName (c : Cursor) (empty : Reason) :
    Yields (fun out => out.2.names = c.names) (anchorName c empty) := by
  unfold anchorName
  simp only
  split
  · exact .fail _ _
  · exact .ok rfl

theorem announced_alias? (h : c.Known text) :
    Yields? (fun found => found.1.Announced text) (alias? c) := by
  unfold alias?
  split
  · refine (names_anchorName c.next _).bind ?_
    rintro ⟨name, d⟩ hd
    simp only
    split
    · rename_i v hv
      obtain ⟨before, after, hnames, -⟩ := List.lookup_eq_some_iff.mp hv
      refine .found (h.names name v ?_)
      rw [← Cursor.names_next, ← hd, hnames]
      exact List.mem_append_right _ List.mem_cons_self
    · exact .fail _ _
  · exact .missing

/-- A scalar or an alias is announced, unless it is plain. -/
theorem announced_leaf? (h : c.Known text) (floor : Nat) (context : Context) :
    Yields? (fun found => (found.2.1 = false → found.1.value.Announced text)
      ∧ (found.2.1 = true → found.1.IsPlain text)) (leaf? floor context c) := by
  unfold leaf?
  simp only
  split
  case' isTrue =>
    refine (Yields.anything _).bind fun out _ => ?_
    split
    case' h_1 => exact .found ⟨fun _ => trivial, nofun⟩
  all_goals
    refine (Yields.anything _).bind fun out _ => ?_
    split
    · exact .found ⟨fun _ => trivial, nofun⟩
    · refine (announced_alias? h).bind fun out hout => ?_
      split
      · exact .found ⟨fun _ => hout _ rfl, nofun⟩
      · refine (hasYear_of_plain h.within floor _).bind fun out hout => ?_
        split
        · exact .found ⟨nofun, fun _ => ⟨_, rfl, by simpa using hout _ rfl⟩⟩
        · exact .missing

section Nodes

variable {child : Reader}

theorem announced_flowCollection? (text : List Char) (child : Reader) (floor : Nat)
    (anchor : Option String) (c : Cursor) :
    Yields? (fun found => found.1.value.Announced text)
      (flowCollection? child floor anchor c) := by
  unfold flowCollection?
  simp only
  split
  · exact (Yields.anything _).bind fun _ _ => .found trivial
  · exact (Yields.anything _).bind fun _ _ => .found trivial
  · exact .missing

theorem announced_keyedMapping? (text : List Char) (child : Reader) (floor : Nat)
    (first : Option Cursor) (c : Cursor) :
    Yields? (fun found => found.1.value.Announced text)
      (keyedMapping? child floor first c) := by
  unfold keyedMapping?
  split
  · split
    · refine (Yields.anything _).bind fun out _ => ?_
      split
      · exact .found trivial
      · exact .missing
    · exact .missing
  · exact .missing

theorem announced_blockSequence? (text : List Char) (child : Reader) (anchor : Option String)
    (c : Cursor) :
    Yields? (fun found => found.1.value.Announced text)
      (blockSequence? child anchor c) := by
  unfold blockSequence?
  split
  · exact (Yields.anything _).bind fun _ _ => .found trivial
  · exact .missing

theorem drafted_flowDraft (h : c.Known text) (child : Reader) (floor : Nat) (context : Context)
    (first : Option Cursor) (anchor : Option String) :
    Yields (Drafted text) (flowDraft child floor context first none anchor c) := by
  unfold flowDraft
  refine (announced_flowCollection? text child floor anchor c).bind fun out hout => ?_
  split
  · exact .ok (.of_content (hout _ rfl))
  · refine (announced_keyedMapping? text child floor first c).bind fun out hout => ?_
    split
    · exact .ok (.of_content (hout _ rfl))
    · refine (announced_leaf? h floor context).bind fun out hout => ?_
      split
      · exact .ok (.of_absent fun hanchor => by rw [hanchor]; exact h)
      · rename_i content isPlain d
        obtain ⟨hvalue, hplain⟩ := hout _ rfl
        split
        · exact .fail _ _
        · cases isPlain with
          | false => exact .ok (.of_content (hvalue rfl))
          | true => exact .ok ⟨.inr ⟨rfl, content, rfl, hplain rfl⟩, fun _ h => nomatch h⟩

/-! ## Attempts at block mappings -/

/-- A node of which the value is announced. If there was none, the place is still known. -/
structure Told (text : List Char) (out : Node × Cursor) : Prop where
  value : out.1.value.Announced text
  absent : out.1.present = false → out.2.Known text

/-- What an attempt at a block mapping leads to, where no key was found before. -/
def BlockMapping.Outcome.Told (text : List Char) : Outcome × Cursor → Prop
  | (.mapping _, _) => True
  | (.single node, _) => node.value.Announced text
  | (.nothing, d) => d.Known text

/-- Before the first key the place is known, and no key waits. -/
def BlockMapping.Begins (text : List Char) (b : BlockMapping) (c : Cursor) : Prop :=
  b.detected = false → b.waiting = none ∧ c.Known text

/-- What a step shows of the text: a pair has been detected, a mapping that ended without one is
still as it began, and a single node is announced. -/
def BlockMapping.Step.Told (text : List Char) : Step × Cursor → Prop
  | (.pair b, _) => b.detected = true
  | (.ended b, d) => b.Begins text d
  | (.single node, _) => node.value.Announced text

namespace BlockMapping

variable {b : BlockMapping} (hchild : ∀ r c, c.Known text → Yields (Yaml.Told text) (child r c))

theorem begins_of_detected (h : b.detected = true) (c : Cursor) : b.Begins text c :=
  fun hcon => absurd (h.symm.trans hcon) (by decide)

theorem detected_settle (b : BlockMapping) (c : Cursor) :
    Yields (fun out => out.1.detected = b.detected) (b.settle c) := by
  unfold settle
  split
  · exact .ok rfl
  · exact (Yields.anything _).bind fun _ _ => .ok rfl

theorem told_finish (hb : b.Begins text c) : Yields (Outcome.Told text) (b.finish c) := by
  cases hdetected : b.detected with
  | true =>
    refine (detected_settle b c).bind fun out hout => ?_
    simp only [hout, hdetected, if_true]
    exact .ok trivial
  | false =>
    obtain ⟨hwaiting, hc⟩ := hb hdetected
    have hfinish : b.finish c = .ok (.nothing, c) := by
      simp [finish, settle, hwaiting, hdetected, bind, Except.bind]
    rw [hfinish]
    exact .ok hc

include hchild

theorem told_implicitPair (hb : b.Begins text c) (column floor : Nat) :
    Yields (Step.Told text) (b.implicitPair child column floor c) := by
  have hkey : Yields (fun out => b.detected = false → Yaml.Told text out)
      (child ⟨floor + 1, .flowOut, false, true⟩ c) :=
    fun out hout hdetected => hchild _ c (hb hdetected).2 out hout
  unfold implicitPair
  refine hkey.bind ?_
  rintro ⟨key, d⟩ hkey
  simp only
  split_ifs with habsent _ _ _ hdetected hdetected
  · exact .ok fun hdetected => ⟨(hb hdetected).1, (hkey hdetected).absent (by simpa using habsent)⟩
  · exact .fail _ _
  · exact (Yields.anything _).bind fun _ _ => (Yields.anything _).bind fun _ _ =>
      (Yields.anything _).bind fun _ _ => .ok rfl
  · exact .fail _ _
  · exact .ok (hkey (by simpa using hdetected)).value
  · exact .fail _ _
  · exact .ok (hkey (by simpa using hdetected)).value

theorem told_step (hb : b.Begins text c) (column floor : Nat) :
    Yields (Step.Told text) (b.step child column floor c) := by
  unfold step
  split_ifs
  · exact (Yields.anything _).bind fun _ _ => (Yields.anything _).bind fun _ _ => .ok rfl
  · split
    · rename_i key hwaiting
      have hdetected : b.detected = true := by
        by_contra hcon
        rw [(hb (by simpa using hcon)).1] at hwaiting
        cases hwaiting
      exact (Yields.anything _).bind fun _ _ => (Yields.anything _).bind fun _ _ => .ok hdetected
    · exact .fail _ _
  · exact told_implicitPair hchild hb column floor

theorem told_read (hb : b.Begins text c) (column floor steps : Nat) :
    Yields (Outcome.Told text) (b.read child column floor c steps) := by
  induction steps generalizing b c with
  | zero => exact told_finish hb
  | succ steps ih =>
    rw [BlockMapping.read]
    simp only
    split
    · exact told_finish hb
    · split
      case' isTrue => refine (Yields.anything _).bind fun _ _ => ?_
      all_goals
        refine (told_step hchild hb column floor).bind fun out hout => ?_
        split
        · exact told_finish hout
        · exact .ok hout
        · split_ifs
          · exact .fail _ _
          · exact told_finish (begins_of_detected hout _)
          · exact ih (begins_of_detected hout _)

end BlockMapping

section Child

variable (hchild : ∀ r c, c.Known text → Yields (Told text) (child r c))

include hchild

theorem told_blockMapping (h : c.Known text) (floor : Nat) (anchor : Option String) :
    Yields (BlockMapping.Outcome.Told text) (blockMapping child floor anchor c) := by
  have hopen : (c.bindOpen anchor (.record [])).2.Known text := h.bindOpen anchor _
  unfold blockMapping
  refine (BlockMapping.told_read hchild (fun _ => ⟨rfl, hopen⟩) _ _ _).bind ?_
  rintro ⟨outcome, d⟩ houtcome
  cases outcome with
  | mapping fields => exact .ok trivial
  | single node => exact .ok houtcome
  | nothing => exact .ok houtcome

theorem drafted_insideDraft (h : c.Known text) (floor : Nat) (context : Context)
    (collections : Bool) (first : Option Cursor) (anchor : Option String) :
    Yields (Drafted text) (insideDraft child floor context collections first none anchor c) := by
  unfold insideDraft
  simp only
  split
  · refine (announced_blockSequence? text child anchor c).bind fun out hout => ?_
    split
    · exact .ok (.of_content (hout _ rfl))
    · split
      · refine (told_blockMapping hchild h floor anchor).bind fun out hout => ?_
        split
        · exact .ok (.of_content trivial)
        · exact .ok (.of_content hout)
        · exact drafted_flowDraft hout child floor context none none
      · exact drafted_flowDraft h child floor context _ anchor
  · exact drafted_flowDraft h child floor context _ anchor

theorem drafted_draft (h : c.Known text) (r : Request) {p : Properties} (hp : p.tag = none) :
    Yields (Drafted text) (draft child r p c) := by
  unfold draft
  simp only [hp]
  split
  · exact drafted_insideDraft hchild h _ _ _ _ _
  · split
    · refine (announced_blockSequence? text child p.anchor c).bind fun out hout => ?_
      split
      · exact .ok (.of_content (hout _ rfl))
      · refine .ok (.of_absent fun hanchor => ?_)
        rw [hanchor, Cursor.bind_none, ite_self]
        exact h
    · exact .ok (.of_absent fun _ => h)
  · exact .ok (.of_absent fun _ => h)

end Child

theorem known_anchor? (h : c.Known text) :
    Yields? (fun found => found.2.Known text) (anchor? c) := by
  have hnames : Yields? (fun found => found.2.names = c.names) (anchor? c) := by
    unfold anchor?
    split
    · refine (names_anchorName c.next _).map fun out hout => ?_
      rintro _ ⟨⟩
      rw [hout, Cursor.names_next]
    · exact .missing
  exact fun out hout found hfound =>
    h.of_names ((ends_anchor? h.within).yields out hout found hfound)
      (hnames out hout found hfound)

theorem step_frame (p : Properties) (floor : Nat) (blocks : Bool) (c : Cursor) :
    (p.step floor blocks c).1.tag = p.tag ∧ (p.step floor blocks c).2.names = c.names := by
  unfold Properties.step
  simp only
  split
  · exact ⟨rfl, Cursor.names_separation true⟩
  · exact ⟨rfl, Cursor.names_separation true⟩

variable (hmark : '!' ∉ text)

include hmark

theorem untagged (h : c.Within text) : Yields (fun out => out = none) (tag? c) := by
  intro out hout
  by_contra hsome
  obtain ⟨found, hfound⟩ := Option.ne_none_iff_exists'.mp hsome
  exact hmark ((ends_tag? h).yields out hout found hfound).2

theorem known_readProperties (h : c.Known text) {p : Properties} (hp : p.tag = none) (floor : Nat)
    (blocks : Bool) (steps : Nat) :
    Yields (fun out => out.2.Known text ∧ out.1.tag = none) (p.read floor blocks c steps) := by
  induction steps generalizing c p with
  | zero => exact .ok ⟨h, hp⟩
  | succ steps ih =>
    rw [Properties.read]
    split
    · split
      · exact .ok ⟨h, hp⟩
      · exact .fail _ _
    · refine (untagged hmark h.within).bind ?_
      rintro _ rfl
      refine (known_anchor? h).bind fun out hout => ?_
      split
      · rename_i anchor d
        have hd := hout _ rfl
        set q : Properties := { p with anchor := some anchor, first := p.first <|> some c }
        obtain ⟨htag, hnames⟩ := step_frame q floor blocks d
        exact ih (hd.of_names (within_step hd.within q floor blocks) hnames) (htag.trans hp)
      · exact .ok ⟨h, hp⟩

theorem known_propertiesOfRequest (h : c.Known text) (r : Request) :
    Yields (fun out => out.2.Known text ∧ out.1.tag = none) (Properties.ofRequest r c) := by
  have hd : (if r.seek then c.separation true else (0, c)).2.Known text := by
    split_ifs
    · exact h.of_names (h.within.separation true) (Cursor.names_separation true)
    · exact h
  unfold Properties.ofRequest
  generalize (if r.seek then c.separation true else (0, c)) = entry at hd
  simp only
  generalize (if entry.1 ≠ 0 then Standing.of r.floor entry.2.indent else .inside) = standing
  split
  · exact known_readProperties hmark hd rfl _ _ _
  · exact .ok ⟨hd, rfl⟩

theorem told_readWith (hchild : ∀ r c, c.Known text → Yields (Told text) (child r c)) (r : Request)
    (h : c.Known text) : Yields (Told text) (Node.readWith child r c) := by
  unfold Node.readWith
  refine (known_propertiesOfRequest hmark h r).bind fun out hout => ?_
  refine (drafted_draft hchild hout.1 r hout.2).bind fun made hmade => ?_
  obtain ⟨draft, d⟩ := made
  refine (announced_resolve hmade).bind fun resolved hresolved => ?_
  refine .ok ⟨hresolved.1, fun habsent => ?_⟩
  simp only [Bool.or_eq_false_iff, Option.isSome_eq_false_iff, Option.isNone_iff_eq_none] at habsent
  obtain ⟨⟨-, hanchor⟩, hcontent⟩ := habsent
  simp only [hresolved.2 hanchor hcontent]
  exact hmade.absent hanchor hcontent

theorem told_read (depth : Nat) (r : Request) (c : Cursor) (h : c.Known text) :
    Yields (Told text) (Node.read depth r c) := by
  induction depth generalizing r c with
  | zero => exact .fail _ _
  | succ depth ih =>
    rw [Node.read]
    exact told_readWith hmark ih r h

end Nodes

/-! ## Documents -/

section Documents

variable (hmark : '!' ∉ text)

include hmark

theorem announced_document (h : c.Within text) :
    Yields (fun out => out.1.root.Announced text) (document c) := by
  unfold document
  simp only
  set c' : Cursor := { c with names := {}, handles := [] }
  have hc' : c'.Within text := h
  have hstart : c'.Known text := ⟨hc', by simp [c']⟩
  have hdirectives : Yields (fun out => out.2.Known text) (directives {} c' (c'.rest.length + 1)) :=
    fun out hout => hstart.of_names ((ends_directives hc' _ _).yields out hout)
      (names_directives _ _ _ out hout)
  refine hdirectives.bind ?_
  rintro ⟨ds, d⟩ hd
  have hstarts : Yields (fun e => e.Known text) (documentStart ds d) :=
    fun e he => hd.of_names ((ends_documentStart hd.within ds).yields e he)
      (names_documentStart ds d e he)
  refine hstarts.bind fun e he => ?_
  refine (told_read hmark maxDepth _ e he).bind ?_
  rintro ⟨node, f⟩ hnode
  simp only
  split_ifs
  · exact .ok hnode.value
  · exact .ok hnode.value
  · exact .ok hnode.value
  · exact .fail _ _

theorem announced_documentsFrom (h : c.Within text) (count : Nat) :
    Yields (fun docs => ∀ g ∈ docs, g.root.Announced text) (documentsFrom c count) := by
  induction count generalizing c with
  | zero => exact .ok (by simp)
  | succ count ih =>
    have hdocument : Yields (fun out => out.1.root.Announced text ∧ out.2.Within text)
        (document c) :=
      fun out hout => ⟨announced_document hmark h out hout, ((ends_document h).yields out hout).1⟩
    rw [documentsFrom]
    split
    · exact .ok (by simp)
    · refine hdocument.bind fun out hout => ?_
      exact (ih hout.2).bind fun docs hdocs => .ok (by simpa [hout.1] using hdocs)

omit hmark in
theorem announced_documents {cs : List Char} (hmark : '!' ∉ normalized cs) :
    Yields (fun docs => ∀ g ∈ docs, g.root.Announced (normalized cs)) (documents cs) := by
  rcases documents_cases cs with ⟨c, heq⟩ | ⟨c, count, hc, heq⟩
  · rw [heq]
    exact .fail _ _
  · rw [heq]
    exact announced_documentsFrom hmark hc count

end Documents

/-- What a document is spelled out as is announced if its root is: a link leads to a collection. -/
theorem announced_of_spell {σ : Type} {view : View σ} {g : Graph} {turns : Nat} {look : σ}
    {root : Linked} {v : Value} (hroot : root.Announced text)
    (h : root.spell view (g.follow view turns) look = some v) : Yaml.Announced text v := by
  cases root with
  | leaf w =>
    obtain rfl := Option.some.inj h
    rwa [eq_of_seen view (Yaml.Announced text) (fun _ _ => rfl) fun _ _ => rfl]
  | list items =>
    obtain ⟨vs, rfl⟩ := exists_list_of_spell h
    trivial
  | record fields =>
    obtain ⟨parts, rfl⟩ := exists_record_of_spell h
    trivial
  | link slot => obtain ⟨vs, rfl⟩ | ⟨parts, rfl⟩ := collection_of_follow h <;> trivial

/-- What a text without exclamation marks is loaded as is announced in it. -/
theorem announced_of_load {s : String} {v : Value} (h : load s = .ok (.tree v))
    (hmark : '!' ∉ s.toList) : Announced s.toList v := by
  have hdocuments : Yields (fun docs => ∀ g ∈ docs, g.root.Announced (normalized s.toList))
      (documents s.toList) :=
    announced_documents fun hmem => hmark (mem_of_mem_normalized hmem (by decide))
  have hload : Yields (fun l => ∀ v, l = .tree v → Announced (normalized s.toList) v) (load s) := by
    refine hdocuments.bind fun docs hdocs => ?_
    match docs with
    | [] =>
      refine .ok ?_
      rintro v ⟨⟩
      trivial
    | [g] =>
      refine .ok fun v hv => ?_
      unfold Graph.loaded at hv
      split at hv
      · rename_i w hw
        obtain rfl := Loaded.tree.inj hv
        exact announced_of_spell (hdocs g List.mem_cons_self) hw
      · cases hv
    | _ :: _ :: _ => nofun
  have hannounced := hload _ h v rfl
  cases v with
  | date ms => exact hasYear_of_normalized hannounced
  | _ => exact hannounced

end ParamForm.Yaml
