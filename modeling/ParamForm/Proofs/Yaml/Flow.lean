import ParamForm.Proofs.Yaml.Mapping
import ParamForm.Proofs.Yaml.Numeral
import ParamForm.Value.Json

/-!
# Flow collections read back

Entries between brackets, with nothing but a comma between two of them, are read one after another
if each is (`flowEntries_commaJoined`): an element up to the comma after it, a pair as its quoted
name, a colon, and its value. So the elements of a list and the fields of a record are collected in
their order (`flowCollection_list`, `flowCollection_record`).
-/

namespace ParamForm.Yaml

open Value (commaJoined)

/-- What ends an entry between brackets. -/
def closesEntry (c : Char) : Bool :=
  c = ',' || c = ']' || c = '\x7d'

section ClosesEntry

variable {rest : List Char} (h : startsWith closesEntry rest = true)
include h

theorem startsWith_of_closesEntry {p : Char → Bool} (hp : [',', ']', '\x7d'].all p = true) :
    startsWith p rest = true := by
  cases rest with
  | nil => simp [startsWith] at h
  | cons c cs =>
    simp only [startsWith, closesEntry, Bool.or_eq_true, decide_eq_true_eq] at h
    simp only [List.all_cons, List.all_nil, Bool.and_true, Bool.and_eq_true] at hp
    rcases h with (rfl | rfl) | rfl
    · exact hp.1
    · exact hp.2.1
    · exact hp.2.2

theorem startsToken_of_closesEntry : startsToken rest = true := by
  have := startsWith_of_closesEntry h (p := fun c => !isSpacing c && c ≠ '#') (by decide)
  cases rest with
  | nil => rfl
  | cons c cs => exact this

theorem startsWith_colon_of_closesEntry : startsWith (· = ':') rest = false := by
  have := startsWith_of_closesEntry h (p := (· ≠ ':')) (by decide)
  cases rest with
  | nil => rfl
  | cons c cs => simpa [startsWith] using this

end ClosesEntry

theorem startsWith_append {p : Char → Bool} {text : List Char} (hne : text ≠ [])
    (h : startsWith p text = false) (rest : List Char) : startsWith p (text ++ rest) = false := by
  cases text with
  | nil => exact absurd rfl hne
  | cons c cs => exact h

/-- A character that goes on with a plain scalar wherever it stands. -/
def isSteady (c : Char) : Bool :=
  !isSpacing c && !isFlowIndicator c && c ≠ ':' && c ≠ '#' && isPrintable c

/-- A word that is a plain scalar between brackets. -/
structure PlainWord (cs : List Char) : Prop where
  starts : ∀ rest, startsPlain true (cs ++ rest) = true
  steady : cs.all isSteady = true

theorem plainRun_append_of_steady {rest : List Char}
    (hrest : startsWith isFlowIndicator rest = true) :
    ∀ (cs : List Char) (blank : Bool), cs.all isSteady = true →
      plainRun true blank (cs ++ rest) = cs
  | [], blank, _ => by
    cases rest with
    | nil => rfl
    | cons c rest =>
      have hc : isFlowIndicator c = true := hrest
      have hcolon : c ≠ ':' := by
        rintro rfl
        exact absurd hc (by decide)
      have hhash : c ≠ '#' := by
        rintro rfl
        exact absurd hc (by decide)
      simp [plainRun, plainEnds, hcolon, hhash, hc]
  | c :: cs, blank, hsteady => by
    rw [List.all_cons, Bool.and_eq_true] at hsteady
    have hc := hsteady.1
    simp only [isSteady, isSpacing, Bool.and_eq_true, Bool.not_eq_true', Bool.or_eq_false_iff,
      decide_eq_true_eq] at hc
    have hends : plainEnds true blank (c :: (cs ++ rest)) = false := by simp [plainEnds, hc]
    rw [List.cons_append, plainRun, if_neg (by simp [hends]),
      plainRun_append_of_steady hrest cs _ hsteady.2]

namespace PlainWord

variable {cs : List Char} (h : PlainWord cs)
include h

theorem ne_nil : cs ≠ [] := by
  rintro rfl
  exact absurd (h.starts []) (by decide)

theorem noNull : '\x00' ∉ cs := by
  intro hmem
  have := List.all_eq_true.mp h.steady _ hmem
  exact absurd this (by decide)

theorem trimmedEnd : trimmedEnd cs = cs := by
  rcases List.eq_nil_or_concat cs with rfl | ⟨front, c, rfl⟩
  · rfl
  · have hc : isSteady c = true := List.all_eq_true.mp h.steady c (by simp)
    simp only [isSteady, isSpacing, Bool.and_eq_true, Bool.not_eq_true', Bool.or_eq_false_iff]
      at hc
    simp [Yaml.trimmedEnd, hc]

variable {floor : Nat} {c : Cursor} {rest : List Char} (hpos : c.lineStart < c.position)
  (hrest : startsWith closesEntry rest = true) (hc : c.rest = cs ++ rest)
include hpos hrest hc

/-- A word is read up to its end. -/
theorem plain?_append : plain? floor true c = .ok (some (cs, c.past cs rest)) := by
  have hrun (blank : Bool) : plainRun true blank c.rest = cs := by
    rw [hc]
    exact plainRun_append_of_steady (startsWith_of_closesEntry hrest (by decide)) cs blank h.steady
  have hstarts : startsPlain true c.rest = true := by
    rw [hc]
    exact h.starts rest
  have hgoes : plainEnds true true c.rest = false :=
    plainEnds_eq_false_of_run (by rw [hrun]; exact h.ne_nil)
  have hdrop : c.rest.drop cs.length = rest := by rw [hc, List.drop_left]
  have hbreak : startsWith isBreak rest = false :=
    startsWith_isBreak_of_startsToken (startsToken_of_closesEntry hrest)
  have hprint (d : Cursor) : checkPrintable cs d = .ok () := by
    refine if_pos (all_of_imp (fun ch hch => ?_) h.steady)
    simp only [isSteady, Bool.and_eq_true] at hch
    exact hch.2
  simp [plain?, continuesPlain, hstarts, hgoes, Cursor.atMark_eq_false hpos, plainLines, hrun,
    hdrop, hbreak, h.trimmedEnd, hprint, Except.map, bind, Except.bind]

theorem leaf?_append (child : Reader) :
    flowCollection? child floor none c = .ok none
      ∧ leaf? floor .flowIn c = .ok (some (scalarContent cs, true, c.past cs rest)) := by
  have hstarts : startsPlain true c.rest = true := by
    rw [hc]
    exact h.starts rest
  exact leaf?_of_startsPlain (decide_eq_true rfl) hstarts (h.plain?_append hpos hrest hc) child

end PlainWord

/-- A node with a value was read up to a place. -/
structure Gives (v : Linked) (d : Cursor) (r : Node × Cursor) : Prop where
  value : r.1.value = v
  present : r.1.present = true
  next : r.2 = d

/-- A text is read as a value between brackets, if its levels of nesting fit. -/
structure FlowText (levels : Nat) (text : List Char) (v : Linked) : Prop where
  opens : opensContent text = true
  inside : startsWith closesEntry text = false
  noNull : '\x00' ∉ text
  reads : ∀ (depth floor : Nat) (c : Cursor) (rest : List Char), c.lineStart < c.position →
    startsWith closesEntry rest = true → c.rest = text ++ rest →
    Reads (levels ≤ depth) (Gives v (c.past text rest))
      (Node.read depth ⟨floor + 1, .flowIn, false, true⟩ c)

/-- A scalar takes one level. -/
theorem flowText_of_scalar {text : List Char} {v : Linked} (hopens : opensContent text = true)
    (hinside : startsWith closesEntry text = false) (hnull : '\x00' ∉ text)
    (hread : ∀ (child : Reader) (floor : Nat) (c : Cursor) (rest : List Char),
      c.lineStart < c.position → startsWith closesEntry rest = true → c.rest = text ++ rest →
      ∃ r, readInside child floor .flowIn false c = .ok r ∧ Gives v (c.past text rest) r) :
    FlowText 1 text v where
  opens := hopens
  inside := hinside
  noNull := hnull
  reads depth floor c rest hpos hrest hc := by
    cases depth with
    | zero => exact Reads.tooDeep (by decide) c
    | succ depth =>
      obtain ⟨r, hr, hgives⟩ := hread (Node.read depth) floor c rest hpos hrest hc
      rw [read_flow rfl (by rw [hc]; exact opensContent_append hopens rest), hr]
      exact (Reads.ok hgives).congr (by simp)

theorem flowText_implicit {cs : List Char} {t : CoreType} {v : Linked} (h : PlainWord cs)
    (hopens : opensContent cs = true)
    (himplicit : implicit? (.leaf (.text (String.ofList cs))) = some (t, .value v)) :
    FlowText 1 cs v := by
  refine flowText_of_scalar hopens ?_ h.noNull fun child floor c rest hpos hrest hc => ?_
  · have hstarts := h.starts []
    rw [List.append_nil] at hstarts
    refine startsWith_of_startsPlain hstarts fun c hc => .inl ?_
    simp only [closesEntry, Bool.or_eq_true, decide_eq_true_eq] at hc
    rcases hc with (rfl | rfl) | rfl <;> decide
  · obtain ⟨hflow, hleaf⟩ := h.leaf?_append hpos hrest hc child
    exact ⟨_, readInside_of_implicit hflow hleaf himplicit, rfl, rfl, rfl⟩

theorem Numeric.flowText {text : List Char} {x : Number} (h : Numeric text x) :
    FlowText 1 text (.leaf (.number x)) := by
  obtain ⟨⟨neg, body, rfl, hstarts, hnumeric⟩, t, -, himplicit⟩ := h
  refine flowText_implicit ⟨startsPlain_withSign hstarts neg true, ?_⟩
    (opensContent_withSign hstarts neg) himplicit
  exact all_of_imp (fun _ => of_isNumeric (by decide) (by decide)) (withSign_all hnumeric neg)

namespace Quoting

variable {write : Char → List Char} (h : Quoting write) {cs rest : List Char} {c : Cursor}
  (hpos : c.lineStart ≤ c.position)
  (hc : c.rest = '"' :: (cs.flatMap write ++ ['"']) ++ rest)
include h hpos hc

theorem readInside (child : Reader) (floor : Nat) (context : Context) :
    readInside child floor context false c
      = .ok (⟨none, some .scalar, .leaf (.text (String.ofList cs)), true⟩,
          c.past ('"' :: (cs.flatMap write ++ ['"'])) rest) := by
  have hquoted := h.quoted? hpos (by simpa using hc : c.rest = '"' :: (_ ++ '"' :: rest))
  have hnone {p : Char → Bool} (hp : p '"' = false) : startsWith p c.rest = false := by
    rw [hc]
    exact hp
  refine readInside_of_leaf ?_ (leaf?_of_quoted ?_ ?_ hquoted)
  · exact flowCollection?_of_startsWith (hnone rfl) (hnone rfl)
  · exact hnone rfl
  · exact hnone rfl

theorem read (depth floor : Nat) :
    Node.read (depth + 1) ⟨floor + 1, .flowIn, false, true⟩ c
      = .ok (⟨none, some .scalar, .leaf (.text (String.ofList cs)), true⟩,
          c.past ('"' :: (cs.flatMap write ++ ['"'])) rest) := by
  rw [read_flow rfl (by rw [hc]; rfl), h.readInside hpos hc]

end Quoting

theorem flowText_quoted {write : Char → List Char} (h : Quoting write) (cs : List Char) :
    FlowText 1 ('"' :: (cs.flatMap write ++ ['"'])) (.leaf (.text (String.ofList cs))) :=
  flowText_of_scalar rfl rfl (by simp [h.noNull_flatMap]) fun child floor _ _ hpos _ hc =>
    ⟨_, h.readInside (Nat.le_of_lt hpos) hc child floor .flowIn, rfl, rfl, rfl⟩

/-! ## Entries -/

/-- A name in quotes, a colon, and the text of a value. -/
def flowPair (write : Char → List Char) (cs text : List Char) : List Char :=
  '"' :: (cs.flatMap write ++ ['"']) ++ ':' :: text

theorem flowEntry_eq {child : Reader} {floor : Nat} {c : Cursor}
    (hquestion : startsWith (· = '?') c.rest = false) :
    flowEntry child floor c = child ⟨floor + 1, .flowIn, false, true⟩ c >>= fun r =>
      if r.2.token.line = c.line ∧ startsWith (· = ':') r.2.token.rest = true then
        child ⟨floor + 1, .flowIn, false, true⟩ r.2.token.next.token >>= fun q =>
          .ok (⟨r.1.tag, r.1.value, some q.1.value, c.mark⟩, q.2)
      else .ok (⟨r.1.tag, r.1.value, none, c.mark⟩, r.2.token) := by
  simp [flowEntry, hquestion]

section Entry

variable {levels : Nat} {text rest : List Char} {v : Linked} {c : Cursor}
  (h : FlowText levels text v) (depth floor : Nat) (hpos : c.lineStart < c.position)
  (hrest : startsWith closesEntry rest = true)
include h hpos hrest

theorem reads_flowEntry_element (hc : c.rest = text ++ rest) :
    Reads (levels ≤ depth)
      (fun r => r.1.key = v ∧ r.1.value = none ∧ r.2 = c.past text rest)
      (flowEntry (Node.read depth) floor c) := by
  have hquestion : startsWith (· = '?') c.rest = false := by
    have hopens := opensContent_append h.opens rest
    rw [← hc] at hopens
    cases hr : c.rest with
    | nil => rfl
    | cons ch more =>
      rw [hr] at hopens
      simp only [opensContent, List.contains_cons, Bool.and_eq_true, Bool.not_eq_true',
        Bool.or_eq_false_iff, beq_eq_false_iff_ne] at hopens
      simp [startsWith, hopens.1.2]
  rw [flowEntry_eq hquestion]
  refine ((h.reads depth floor c rest hpos hrest hc).bind (p := True) fun r hr => ?_).congr
    (iff_of_eq (and_true _))
  have htoken : r.2.token = c.past text rest := by
    rw [hr.next]
    exact Cursor.token_of_startsToken (startsToken_of_closesEntry hrest)
  rw [htoken, Cursor.rest_past, startsWith_colon_of_closesEntry hrest,
    if_neg (fun h => Bool.false_ne_true h.2)]
  exact Reads.ok ⟨hr.value, rfl, rfl⟩

theorem reads_flowEntry_pair {write : Char → List Char} (hwrite : Quoting write) {cs : List Char}
    (hlevels : 0 < levels) (hc : c.rest = flowPair write cs text ++ rest) :
    Reads (levels ≤ depth)
      (fun r => r.1.tag = none ∧ r.1.key = .leaf (.text (String.ofList cs)) ∧ r.1.value = some v
        ∧ r.2 = c.past (flowPair write cs text) rest)
      (flowEntry (Node.read depth) floor c) := by
  rw [flowEntry_eq (by rw [hc]; rfl)]
  unfold flowPair at hc ⊢
  set key := '"' :: (cs.flatMap write ++ ['"']) with hkey
  cases depth with
  | zero => exact Reads.tooDeep (by omega) c
  | succ depth =>
    set more := ':' :: (text ++ rest) with hmore
    have hc' : c.rest = key ++ more := by
      rw [hc, hmore, List.append_assoc]
      rfl
    have hname := hwrite.read (Nat.le_of_lt hpos) hc' depth floor
    rw [← hkey] at hname
    have hcolon : (c.past key more).token = c.past key more := Cursor.token_of_startsToken rfl
    have hnext : (c.past key more).next.token = c.past (key ++ [':']) (text ++ rest) := by
      rw [Cursor.next_eq (rfl : _ = ':' :: (text ++ rest)), Cursor.past_past]
      exact Cursor.token_of_startsToken
        (startsToken_of_opensContent (opensContent_append h.opens rest))
    have hvalue := h.reads (depth + 1) floor (c.past (key ++ [':']) (text ++ rest)) rest
      (by simp only [Cursor.lineStart_past, Cursor.position_past]; omega) hrest rfl
    have hmark : startsWith (· = ':') more = true := rfl
    rw [hname]
    simp only [bind, Except.bind, hcolon, hnext, Cursor.line_past, Cursor.rest_past, hmark,
      and_self, if_true]
    refine (hvalue.bind (p := True) fun r hr => Reads.ok ⟨rfl, rfl, ?_, ?_⟩).congr
      (iff_of_eq (and_true _))
    · rw [hr.value]
    · rw [hr.next, Cursor.past_past, List.append_assoc]
      rfl

end Entry

/-- What follows an entry: the next one, or the end of the collection. -/
def flowGoOn {α : Type} (child : Reader) (floor : Nat) (close : Char)
    (add : α → FlowEntry → Cursor → Except Fault (α × Cursor)) (entries : Nat) (q : α × Cursor) :
    Except Fault (α × Cursor) :=
  let e := q.2.token
  match e.rest with
  | [] => e.fail .streamEndsInFlow
  | ch :: _ =>
    if ch = ',' then flowEntries child floor close add q.1 e.next entries
    else if ch = close then .ok (q.1, e.next)
    else e.fail .commaMissing

/-- An element of a collection is read and added to those before it, if its levels fit. -/
structure EntryReads {α β : Type} (depth floor : Nat)
    (add : α → FlowEntry → Cursor → Except Fault (α × Cursor)) (made : List β → α)
    (text : β → List Char) (fits : β → Prop) (before : List β) (x : β) : Prop where
  opens : opensContent (text x) = true
  inside : startsWith closesEntry (text x) = false
  reads : ∀ (c : Cursor) (rest : List Char), c.lineStart < c.position →
    startsWith closesEntry rest = true → c.rest = text x ++ rest →
    Reads (fits x) (· = (made (before ++ [x]), c.past (text x) rest))
      (flowEntry (Node.read depth) floor c >>= fun r => add (made before) r.1 r.2)

section Entries

variable {α β : Type} {depth floor : Nat} {close : Char}
  {add : α → FlowEntry → Cursor → Except Fault (α × Cursor)} {made : List β → α}
  {text : β → List Char} {fits : β → Prop} (hclose : close = ']' ∨ close = '\x7d')
include hclose

theorem flowEntries_succ {child : Reader} {acc : α} {c : Cursor}
    (hopens : opensContent c.rest = true) (hinside : startsWith closesEntry c.rest = false)
    (entries : Nat) :
    flowEntries child floor close add acc c (entries + 1)
      = (flowEntry child floor c >>= fun r => add acc r.1 r.2)
          >>= flowGoOn child floor close add entries := by
  have hempty : c.rest.isEmpty = false := by simpa using ne_nil_of_opensContent hopens
  have htoken : c.token = c := Cursor.token_of_startsToken (startsToken_of_opensContent hopens)
  have hends : startsWith (· = close) c.rest = false ∧ startsWith (· = ',') c.rest = false := by
    cases hr : c.rest with
    | nil => exact ⟨rfl, rfl⟩
    | cons ch rest =>
      rw [hr] at hinside
      simp only [startsWith, closesEntry, Bool.or_eq_false_iff, decide_eq_false_iff_not]
        at hinside ⊢
      refine ⟨?_, hinside.1.1⟩
      rcases hclose with rfl | rfl
      · exact hinside.1.2
      · exact hinside.2
  rw [flowEntries]
  simp only [hempty, htoken, hends, Bool.false_eq_true, if_false, bind, Except.bind]
  rcases flowEntry child floor c with f | ⟨entry, d⟩
  · rfl
  · simp only
    rcases add acc entry d with f | q <;> rfl

/-- Elements with a comma between two of them are read in turn, after those that were read
before. -/
theorem flowEntries_commaJoined (rest : List Char) :
    ∀ (xs before : List β) (c : Cursor) (entries : Nat),
      (∀ front x back, xs = front ++ x :: back →
        EntryReads depth floor add made text fits (before ++ front) x) →
      xs.length < entries → c.lineStart < c.position →
      c.rest = commaJoined (xs.map text) ++ close :: rest →
      Reads (∀ x ∈ xs, fits x)
        (· = (made (before ++ xs), c.past (commaJoined (xs.map text) ++ [close]) rest))
        (flowEntries (Node.read depth) floor close add (made before) c entries)
  | [], before, c, entries + 1, _, _, _, hc => by
    have hclosed : startsToken (close :: rest) = true := by
      rcases hclose with rfl | rfl <;> rfl
    rw [flowEntries_close hc (by rw [hc]; exact hclosed) entries, List.append_nil]
    refine (Reads.ok ?_).congr (iff_of_true trivial (by simp))
    rfl
  | [x], before, c, entries + 1, hreads, _, hpos, hc => by
    have hx : EntryReads depth floor add made text fits before x := by
      simpa using hreads [] x [] rfl
    have hends : startsWith closesEntry (close :: rest) = true := by
      rcases hclose with rfl | rfl <;> rfl
    have hcomma : close ≠ ',' := by rcases hclose with rfl | rfl <;> decide
    have hopens := opensContent_append hx.opens (close :: rest)
    have hinside := startsWith_append (ne_nil_of_opensContent hx.opens) hx.inside (close :: rest)
    rw [flowEntries_succ hclose (by rw [hc]; exact hopens) (by rw [hc]; exact hinside)]
    refine ((hx.reads c _ hpos hends hc).bind (p := True) ?_).congr (by simp)
    rintro _ rfl
    have htoken : (c.past (text x) (close :: rest)).token = c.past (text x) (close :: rest) :=
      Cursor.token_of_startsToken (startsToken_of_closesEntry hends)
    have hnext := Cursor.next_eq (rfl : (c.past (text x) (close :: rest)).rest = close :: rest)
    simp only [flowGoOn, htoken, Cursor.rest_past, if_neg hcomma, if_true, hnext]
    refine Reads.ok ?_
    simp [commaJoined]
  | x :: y :: xs, before, c, entries + 1, hreads, hentries, hpos, hc => by
    have hx : EntryReads depth floor add made text fits before x := by
      simpa using hreads [] x (y :: xs) rfl
    set more := commaJoined ((y :: xs).map text) with hmore
    have hjoined : commaJoined ((x :: y :: xs).map text) = text x ++ ',' :: more := rfl
    rw [hjoined, List.append_assoc] at hc
    have hopens := opensContent_append hx.opens (',' :: more ++ close :: rest)
    have hinside := startsWith_append (ne_nil_of_opensContent hx.opens) hx.inside
      (',' :: more ++ close :: rest)
    rw [flowEntries_succ hclose (by rw [hc]; exact hopens) (by rw [hc]; exact hinside)]
    refine ((hx.reads c _ hpos rfl hc).bind (p := ∀ z ∈ y :: xs, fits z) ?_).congr (by simp)
    rintro _ rfl
    set d := c.past (text x) (',' :: more ++ close :: rest) with hd
    have htoken : d.token = d := Cursor.token_of_startsToken rfl
    have hnext : d.next = c.past (text x ++ [',']) (more ++ close :: rest) := by
      rw [Cursor.next_eq (rfl : d.rest = ',' :: (more ++ close :: rest)), hd, Cursor.past_past]
      rfl
    have ih := flowEntries_commaJoined rest (y :: xs) (before ++ [x])
      (c.past (text x ++ [',']) (more ++ close :: rest)) entries
      (fun front z back h => by simpa using hreads (x :: front) z back (by rw [h]; rfl))
      (by simpa using hentries)
      (by simp only [Cursor.lineStart_past, Cursor.position_past]; omega) rfl
    simp only [flowGoOn, htoken, hnext]
    refine ih.imp ?_
    rintro _ rfl
    rw [Cursor.past_past, hjoined, ← hmore]
    simp only [List.append_assoc, List.cons_append, List.nil_append]

omit hclose in
theorem length_le_commaJoined :
    ∀ parts : List (List Char), parts.length ≤ (commaJoined parts).length + 1
  | [] => Nat.zero_le _
  | [_] => Nat.le_add_left _ _
  | p :: q :: parts => by
    have := length_le_commaJoined (q :: parts)
    simp only [commaJoined, List.length_cons, List.length_append] at this ⊢
    omega

/-- All elements of a collection are read, from after its opening bracket on. -/
theorem flowEntries_next {xs : List β} {c : Cursor} {opening : Char} {rest : List Char}
    (hreads : ∀ front x back, xs = front ++ x :: back →
      EntryReads depth floor add made text fits front x)
    (hpos : c.lineStart ≤ c.position)
    (hc : c.rest = opening :: (commaJoined (xs.map text) ++ close :: rest)) :
    Reads (∀ x ∈ xs, fits x)
      (· = (made xs, c.past (opening :: (commaJoined (xs.map text) ++ [close])) rest))
      (flowEntries (Node.read depth) floor close add (made []) c.next (c.rest.length + 1)) := by
  have hnext := Cursor.next_eq hc
  have hlength : xs.length < c.rest.length + 1 := by
    have := length_le_commaJoined (xs.map text)
    simp only [List.length_map] at this
    simp only [hc, List.length_cons, List.length_append]
    omega
  have hlater : c.next.lineStart < c.next.position := by
    have := Text.charWidth_pos opening
    simp only [hnext, Cursor.lineStart_past, Cursor.position_past, Text.width_cons]
    omega
  have hread := flowEntries_commaJoined hclose rest xs [] c.next (c.rest.length + 1) hreads hlength
    hlater (by rw [hnext]; rfl)
  refine hread.imp ?_
  rintro _ rfl
  simp [hnext]

end Entries

/-! ## Collections -/

theorem noNull_commaJoined :
    ∀ {parts : List (List Char)}, (∀ p ∈ parts, '\x00' ∉ p) → '\x00' ∉ commaJoined parts
  | [], _ => by simp [commaJoined]
  | [p], h => by simpa [commaJoined] using h
  | p :: q :: parts, h => by
    have ih := noNull_commaJoined fun r hr => h r (List.mem_cons_of_mem p hr)
    have hp := h p List.mem_cons_self
    simp [commaJoined, hp, ih]

/-- A text in brackets is read as a value wherever no block collection may begin, if its levels of
nesting fit. -/
structure FlowCollection (levels : Nat) (text : List Char) (v : Linked) : Prop where
  opens : opensContent text = true
  inside : startsWith closesEntry text = false
  noNull : '\x00' ∉ text
  reads : ∀ (depth floor : Nat) (context : Context) (c : Cursor) (rest : List Char),
    context.allowsBlocks = false → c.lineStart ≤ c.position → c.rest = text ++ rest →
    Reads (levels ≤ depth) (Gives v (c.past text rest))
      (Node.read depth ⟨floor + 1, context, false, true⟩ c)

theorem FlowCollection.flowText {levels : Nat} {text : List Char} {v : Linked}
    (h : FlowCollection levels text v) : FlowText levels text v where
  opens := h.opens
  inside := h.inside
  noNull := h.noNull
  reads depth floor c rest hpos _ hc :=
    h.reads depth floor .flowIn c rest rfl (Nat.le_of_lt hpos) hc

theorem flowCollection_of_reads {n : Nat} {text : List Char} {v : Linked} (kind : NodeKind)
    (hopens : opensContent text = true) (hinside : startsWith closesEntry text = false)
    (hnull : '\x00' ∉ text)
    (hreads : ∀ (depth floor : Nat) (c : Cursor) (rest : List Char), c.lineStart ≤ c.position →
      c.rest = text ++ rest →
      Reads (n ≤ depth) (· = some (⟨some kind, v⟩, c.past text rest))
        (flowCollection? (Node.read depth) floor none c)) : FlowCollection (n + 1) text v where
  opens := hopens
  inside := hinside
  noNull := hnull
  reads depth floor context c rest hcontext hpos hc := by
    cases depth with
    | zero => exact Reads.tooDeep (Nat.not_succ_le_zero n) c
    | succ depth =>
      have hflow := hreads depth floor c rest hpos hc
      rw [read_flow hcontext (by rw [hc]; exact opensContent_append hopens rest)]
      refine Reads.congr ⟨fun h => ?_, fun h => ?_⟩ Nat.succ_le_succ_iff.symm
      · obtain ⟨_, hread, rfl⟩ := hflow.of_fits h
        exact ⟨_, readInside_of_flow hread, rfl, rfl, rfl⟩
      · obtain ⟨p, hread, hp⟩ := hflow.of_not_fits h
        refine ⟨p, ?_, hp⟩
        simp [readInside, insideDraft, flowDraft, hread, bind, Except.bind]

section Collections

variable {text : Value → List Char} {levels : Value → Nat} (depth floor : Nat)

theorem entryReads_element {v : Value} (h : FlowText (levels v) (text v) (.ofValue v))
    (before : List Value) :
    EntryReads depth floor (addElement none) (fun done => (Linked.ofItems done).reverse) text
      (levels · ≤ depth) before v where
  opens := h.opens
  inside := h.inside
  reads c rest hpos hrest hc := by
    refine ((reads_flowEntry_element h depth floor hpos hrest hc).bind (p := True) ?_).congr
      (iff_of_eq (and_true _))
    rintro ⟨entry, d⟩ ⟨hkey, hvalue, rfl⟩
    have hadd : addElement none (Linked.ofItems before).reverse entry (c.past (text v) rest)
        = .ok (.ofValue v :: (Linked.ofItems before).reverse, c.past (text v) rest) := by
      simp only at hkey hvalue
      simp [addElement, hvalue, hkey, bind, Except.bind]
    rw [hadd]
    exact Reads.ok (by simp [Linked.ofItems_eq_map])

theorem entryReads_pair {write : Char → List Char} (hwrite : Quoting write) {before : Fields}
    {f : String × Value} (hordered : Fields.Ordered (before ++ [f]))
    (h : FlowText (levels f.2) (text f.2) (.ofValue f.2)) (hlevels : 0 < levels f.2) :
    EntryReads depth floor (addPair none) (fun done => ⟨Linked.ofFields done, []⟩)
      (fun f : String × Value => flowPair write f.1.toList (text f.2)) (levels ·.2 ≤ depth) before
      f where
  opens := rfl
  inside := rfl
  reads c rest hpos hrest hc := by
    refine ((reads_flowEntry_pair h depth floor hpos hrest hwrite hlevels hc).bind
      (p := True) ?_).congr (iff_of_eq (and_true _))
    rintro ⟨entry, d⟩ ⟨htag, hkey, hvalue, rfl⟩
    set d := c.past (flowPair write f.1.toList (text f.2)) rest
    have hstore : (⟨Linked.ofFields before, []⟩ : MappingState).store (.leaf (.text f.1))
        (.ofValue f.2) entry.mark d = .ok ⟨Linked.ofFields (before ++ [f]), []⟩ :=
      MappingState.store_of_ordered hordered
    have hadd : addPair none ⟨Linked.ofFields before, []⟩ entry d
        = .ok (⟨Linked.ofFields (before ++ [f]), []⟩, d) := by
      simp only at htag hkey hvalue
      simp [addPair, MappingState.storeTagged, htag, hkey, hvalue, hstore, Except.map, bind,
        Except.bind]
    rw [hadd]
    exact Reads.ok rfl

end Collections

section Collections

variable {text : Value → List Char} {levels : Value → Nat} {n : Nat}

/-- A list of values that are read. -/
theorem flowCollection_list {vs : List Value}
    (h : ∀ v ∈ vs, FlowText (levels v) (text v) (.ofValue v))
    (hlevels : ∀ depth, n ≤ depth ↔ ∀ v ∈ vs, levels v ≤ depth) :
    FlowCollection (n + 1) ('[' :: (commaJoined (vs.map text) ++ [']']))
      (.ofValue (.list vs)) := by
  have hnull : '\x00' ∉ commaJoined (vs.map text) := by
    refine noNull_commaJoined fun p hp => ?_
    obtain ⟨v, hv, rfl⟩ := List.mem_map.mp hp
    exact (h v hv).noNull
  refine flowCollection_of_reads .sequence rfl rfl (by simp [hnull])
    fun depth floor c rest hpos hc => ?_
  have hc' : c.rest = '[' :: (commaJoined (vs.map text) ++ ']' :: rest) := by simpa using hc
  have hread := flowEntries_next (.inl rfl)
    (fun front v back hvs => entryReads_element depth floor (h v (by simp [hvs])) front) hpos hc'
  rw [flowCollection?_list hc']
  refine (hread.bind (p := True) ?_).congr (by rw [and_true, hlevels])
  rintro _ rfl
  exact Reads.ok (by simp [Linked.ofValue])

/-- A record of values that are read, with its names in order. -/
theorem flowCollection_record {write : Char → List Char} (hwrite : Quoting write) {fields : Fields}
    (hordered : Fields.Ordered fields)
    (h : ∀ f ∈ fields, FlowText (levels f.2) (text f.2) (.ofValue f.2) ∧ 0 < levels f.2)
    (hlevels : ∀ depth, n ≤ depth ↔ ∀ f ∈ fields, levels f.2 ≤ depth) :
    FlowCollection (n + 1)
      ('\x7b' :: (commaJoined (fields.map fun f => flowPair write f.1.toList (text f.2))
        ++ ['\x7d']))
      (.ofValue (.record fields)) := by
  have hnull : '\x00' ∉ commaJoined (fields.map fun f => flowPair write f.1.toList (text f.2)) := by
    refine noNull_commaJoined fun p hp => ?_
    obtain ⟨f, hf, rfl⟩ := List.mem_map.mp hp
    simp [flowPair, hwrite.noNull_flatMap, (h f hf).1.noNull]
  refine flowCollection_of_reads .mapping rfl rfl (by simp [hnull])
    fun depth floor c rest hpos hc => ?_
  have hc' : c.rest = '\x7b' :: (commaJoined
      (fields.map fun f => flowPair write f.1.toList (text f.2)) ++ '\x7d' :: rest) := by
    simpa using hc
  have hread := flowEntries_next (.inr rfl) (fun front f back hfields => by
    have hfront : Fields.Ordered (front ++ [f]) := by
      refine hordered.sublist ?_
      rw [hfields]
      exact List.Sublist.append_left (List.cons_sublist_cons.mpr (List.nil_sublist _)) _
    obtain ⟨hf, hpositive⟩ := h f (by simp [hfields])
    exact entryReads_pair depth floor hwrite hfront hf hpositive) hpos hc'
  rw [flowCollection?_record hc']
  refine (hread.bind (p := True) ?_).congr (by rw [and_true, hlevels])
  rintro _ rfl
  exact Reads.ok rfl

end Collections

end ParamForm.Yaml
