import ParamForm.Proofs.Document
import ParamForm.Proofs.Yaml.Flow
import ParamForm.Proofs.Yaml.Stream

/-!
# JSON text as a schema

A record that JSON text keeps (`Value.KeptByJson`) is read from its JSON text as it is, unless it is
nested too deeply for the reader (`Schema.ofText_json`). What a document would take for something
else, such as a name `<<` or a text `true`, stands in quotes, and JSON's escapes are among those of
a document (`quoting_jsonChar`).
-/

namespace ParamForm

namespace Value

mutual

/-- Whether JSON text holds a value as it is: data with finite numbers of the format, such as the
integers below `2 ^ 53` (`Number.representable_whole`), without a zero with a minus sign, and with
records in the order of their names. -/
def KeptByJson : Value → Prop
  | .absent | .date _ | .bytes _ => False
  | .number x => x.Representable ∧ x.isFinite = true ∧ x ≠ .negZero
  | .list vs => ItemsKept vs
  | .record fields => Fields.Ordered fields ∧ FieldsKept fields
  | _ => True

/-- Whether JSON keeps each item. -/
def ItemsKept : List Value → Prop
  | [] => True
  | v :: vs => KeptByJson v ∧ ItemsKept vs

/-- Whether JSON keeps the value of each field. -/
def FieldsKept : List (String × Value) → Prop
  | [] => True
  | (_, v) :: fields => KeptByJson v ∧ FieldsKept fields

end

mutual

/-- How deep a value is nested: the values from it down to the deepest one in it, both counted. -/
def nesting : Value → Nat
  | .list vs => itemsNesting vs + 1
  | .record fields => fieldsNesting fields + 1
  | _ => 1

/-- The deepest nesting among items. -/
def itemsNesting : List Value → Nat
  | [] => 0
  | v :: vs => max (nesting v) (itemsNesting vs)

/-- The deepest nesting among the values of fields. -/
def fieldsNesting : List (String × Value) → Nat
  | [] => 0
  | (_, v) :: fields => max (nesting v) (fieldsNesting fields)

end

theorem nesting_pos (v : Value) : 0 < nesting v := by
  cases v <;> exact Nat.succ_pos _

theorem itemsNesting_le {vs : List Value} {n : Nat} :
    itemsNesting vs ≤ n ↔ ∀ v ∈ vs, nesting v ≤ n := by
  induction vs with
  | nil => simp [itemsNesting]
  | cons v vs ih => simp [itemsNesting, ih]

theorem fieldsNesting_le {fields : Fields} {n : Nat} :
    fieldsNesting fields ≤ n ↔ ∀ f ∈ fields, nesting f.2 ≤ n := by
  induction fields with
  | nil => simp [fieldsNesting]
  | cons f fields ih => simp [fieldsNesting, ih]

/-- The JSON text of a value as an item of a list. -/
def jsonItem (v : Value) : List Char :=
  (json? v).getD "null".toList

theorem json?_of_kept {v : Value} (h : v.KeptByJson) : json? v = some (jsonItem v) := by
  cases v with
  | absent => exact h.elim
  | _ => rfl

theorem jsonItems_eq (vs : List Value) : jsonItems vs = vs.map jsonItem := by
  induction vs with
  | nil => rfl
  | cons v vs ih => rw [jsonItems, ih]; rfl

theorem jsonFields_eq {fields : Fields} (h : FieldsKept fields) :
    jsonFields fields
      = fields.map fun f => Yaml.flowPair jsonChar f.1.toList (jsonItem f.2) := by
  induction fields with
  | nil => rfl
  | cons f fields ih =>
    rw [jsonFields, json?_of_kept h.1, List.map_cons, ← ih h.2]
    rfl

end Value

namespace Yaml

open Value

theorem controlEscape_spec {n : Nat} (h : n < 0x20) :
    ∃ ds, controlEscape n = '\\' :: 'u' :: ds ∧ ds.length = 4
      ∧ ds.all (fun d => (digitValue? d).isSome) = true ∧ digitsValue 16 0 ds = n := by
  have all : ∀ n < 0x20, controlEscape n = '\\' :: 'u' :: (controlEscape n).drop 2
      ∧ ((controlEscape n).drop 2).length = 4
      ∧ ((controlEscape n).drop 2).all (fun d => (digitValue? d).isSome) = true
      ∧ digitsValue 16 0 ((controlEscape n).drop 2) = n := by decide
  exact ⟨_, all n h⟩

/-- Every character that JSON text writes with a backslash is read as itself. -/
theorem jsonChar_spec (c : Char) :
    (jsonChar c = [c] ∧ isQuotable c = true ∧ isBreak c = false ∧ c ≠ '"' ∧ c ≠ '\\')
      ∨ ∃ e, jsonChar c = '\\' :: e ∧ '\x00' ∉ e ∧ ∀ (rest : List Char) (d : Cursor),
        d.rest = e ++ rest → escape d = .ok (Text.charUnits c, d.past e rest) := by
  unfold jsonChar
  split
  case h_8 hquote hslash _ _ hn _ hr =>
    split_ifs with h
    · obtain ⟨ds, hds, hlength, hdigits, hvalue⟩ := controlEscape_spec h
      refine .inr ⟨'u' :: ds, hds, ?_, fun rest d hd => ?_⟩
      · rintro (_ | ⟨_, hmem⟩)
        exact absurd (List.all_eq_true.mp hdigits _ hmem) (by decide)
      · exact escape_number (by decide) (by decide) (by rw [hlength]; rfl) hdigits hvalue
          (by omega) hd
    · refine .inl ⟨rfl, ?_, ?_, hquote, hslash⟩
      · simp only [isQuotable, Bool.or_eq_true, decide_eq_true_eq]
        omega
      · simp only [isBreak, Bool.or_eq_false_iff, decide_eq_false_iff_not]
        exact ⟨hn, hr⟩
  all_goals
    refine .inr ⟨_, rfl, by decide, fun rest d hd => ?_⟩
    have hnext := Cursor.next_eq hd
    simp [escape, hd, isBreak, letterEscape?, hnext]

theorem quoting_jsonChar : Quoting jsonChar where
  plain c hc := by
    rcases jsonChar_spec c with ⟨-, h⟩ | ⟨e, he, -⟩
    · exact h
    · rw [hc, List.cons.injEq] at he
      obtain ⟨rfl, -⟩ := he
      exact absurd hc (by decide)
  escapes c hc := by
    obtain ⟨e, he, -, hread⟩ := (jsonChar_spec c).resolve_left fun h => hc h.1
    exact ⟨e, he, hread⟩
  noNull c := by
    rcases jsonChar_spec c with ⟨hc, hquotable, -⟩ | ⟨e, he, hnull, -⟩
    · rw [hc, List.mem_singleton]
      rintro rfl
      exact absurd hquotable (by decide)
    · rw [he]
      simpa using hnull

theorem flowText_word {word : List Char} {t : CoreType} {v : Value} (h : PlainWord word)
    (hopens : opensContent word = true)
    (himplicit : implicit? (.leaf (.text (String.ofList word))) = some (t, .value (.ofValue v)))
    (hword : jsonItem v = word) (hnesting : nesting v = 1) :
    FlowText (nesting v) (jsonItem v) (.ofValue v) := by
  rw [hword, hnesting]
  exact flowText_implicit h hopens himplicit

theorem flowCollection_jsonItems {vs : List Value}
    (h : ∀ v ∈ vs, FlowText (nesting v) (jsonItem v) (.ofValue v)) :
    FlowCollection (nesting (.list vs)) (jsonItem (.list vs)) (.ofValue (.list vs)) := by
  have := flowCollection_list h (fun _ => itemsNesting_le)
  rw [← jsonItems_eq] at this
  exact this

theorem flowCollection_jsonFields {fields : Fields} (hkept : (Value.record fields).KeptByJson)
    (h : ∀ f ∈ fields, FlowText (nesting f.2) (jsonItem f.2) (.ofValue f.2)) :
    FlowCollection (nesting (.record fields)) (jsonItem (.record fields))
      (.ofValue (.record fields)) := by
  have := flowCollection_record quoting_jsonChar hkept.1 (fun f hf => ⟨h f hf, nesting_pos f.2⟩)
    (fun _ => fieldsNesting_le)
  rw [← jsonFields_eq hkept.2] at this
  exact this

mutual

/-- The JSON text of a value is read as the value between brackets, if its nesting fits. -/
theorem flowText_json : ∀ v : Value, v.KeptByJson → FlowText (nesting v) (jsonItem v) (.ofValue v)
  | .absent, h | .date _, h | .bytes _, h => h.elim
  | .null, _ => flowText_word (t := .null) ⟨fun _ => rfl, rfl⟩ rfl rfl rfl rfl
  | .bool true, _ => flowText_word (t := .bool) ⟨fun _ => rfl, rfl⟩ rfl rfl rfl rfl
  | .bool false, _ => flowText_word (t := .bool) ⟨fun _ => rfl, rfl⟩ rfl rfl rfl rfl
  | .number x, ⟨hx, hfinite, hzero⟩ => by
    have htext : jsonItem (.number x) = x.text := by simp [jsonItem, json?, hfinite]
    rw [htext]
    exact (numeric_text hx hfinite hzero).flowText
  | .text s, _ => by
    have := flowText_quoted quoting_jsonChar s.toList
    rwa [String.ofList_toList] at this
  | .list vs, h => (flowCollection_jsonItems (flowText_items vs h)).flowText
  | .record fields, h => (flowCollection_jsonFields h (flowText_fields fields h.2)).flowText

theorem flowText_items : ∀ vs : List Value, ItemsKept vs →
    ∀ v ∈ vs, FlowText (nesting v) (jsonItem v) (.ofValue v)
  | [], _ => by simp
  | v :: vs, h => List.forall_mem_cons.mpr ⟨flowText_json v h.1, flowText_items vs h.2⟩

theorem flowText_fields : ∀ fields : List (String × Value), FieldsKept fields →
    ∀ f ∈ fields, FlowText (nesting f.2) (jsonItem f.2) (.ofValue f.2)
  | [], _ => by simp
  | (_, v) :: fields, h =>
    List.forall_mem_cons.mpr ⟨flowText_json v h.1, flowText_fields fields h.2⟩

end

/-- A flow collection as a document: it is read as the key of a block mapping first. -/
theorem FlowCollection.reads_document {n : Nat} {text : List Char} {v : Linked}
    (h : FlowCollection n text v) :
    Reads (n < maxDepth) (Leads v 0 [] { rest := text ++ ['\n'] })
      (Node.read maxDepth ⟨0, .blockOut, false, true⟩ { rest := text ++ ['\n'] }) := by
  set c : Cursor := { rest := text ++ ['\n'] } with hc
  have hopens : opensContent c.rest = true := opensContent_append h.opens ['\n']
  have hkey := h.reads 99 0 .flowOut c ['\n'] rfl (Nat.le_refl _) rfl
  rw [hc, read_root (startsNode_of_opensContent hopens)]
  refine Reads.congr ⟨fun hfits => ?_, fun hfits => ?_⟩ Nat.lt_succ_iff.symm
  · obtain ⟨⟨key, d⟩, hread, hvalue, hpresent, rfl⟩ := hkey.of_fits hfits
    have htoken : (c.past text ['\n']).token = (c.past text ['\n']).below 0 [] :=
      Cursor.token_below rfl rfl
    refine ⟨_, readInside_single hopens rfl .blockOut hread hpresent rfl rfl, hvalue, rfl, ?_, ?_⟩
    · simp only [htoken]
      exact Cursor.atLine_below _ _ _
    · simp only [htoken]
      exact Nat.lt_succ_self _
  · obtain ⟨p, hread, hp⟩ := hkey.of_not_fits hfits
    exact ⟨p, readInside_fault hopens rfl .blockOut hread, hp⟩

/-- The JSON text of a record is read as the record exactly if the nesting fits. -/
theorem load_json {fields : Fields} (h : (Value.record fields).KeptByJson) :
    Reads (nesting (.record fields) < maxDepth) (· = .tree (.record fields))
      (load (String.ofList (jsonItem (.record fields)))) := by
  have hcollection := flowCollection_jsonFields h (flowText_fields fields h.2)
  set text := jsonItem (.record fields) with htext
  obtain ⟨inner, hinner⟩ : ∃ inner, text = '\x7b' :: (inner ++ ['\x7d']) := ⟨_, rfl⟩
  have hnormal : normalized text = text ++ ['\n'] := by
    refine normalized_of_not_break (c := '\x7d') ?_ rfl ?_
    · rw [hinner, ← List.cons_append, List.getLast?_concat]
    · rw [hinner]
      rfl
  refine load_of_reads ?_ hnormal ?_ ?_ hcollection.reads_document
  · rw [hinner]
    rfl
  · simpa using hcollection.noNull
  · have hbrace : Text.charWidth '\x7b' = 1 := rfl
    have hnewline : Text.charWidth '\n' = 1 := rfl
    simp only [hinner, Text.width_append, Text.width_cons, hbrace, hnewline]
    omega

end Yaml

namespace Schema

open Value

theorem ofText_jsonItem {fields : Fields} (h : (Value.record fields).KeptByJson) :
    ((Value.record fields).nesting < Yaml.maxDepth →
        ofText (String.ofList (jsonItem (.record fields))) = .ok (.record fields))
      ∧ (Yaml.maxDepth ≤ (Value.record fields).nesting → ∃ p : Yaml.Problem, p.reason = .tooDeep
        ∧ ofText (String.ofList (jsonItem (.record fields)))
          = .error (.document "schema" [⟨[], p.text⟩])) := by
  have hload := Yaml.load_json h
  constructor
  · intro hfits
    obtain ⟨_, hread, rfl⟩ := hload.of_fits hfits
    rw [ofText, parse, loadDocument, hread]
    rfl
  · intro hdeep
    obtain ⟨p, hread, hp⟩ := hload.of_not_fits (Nat.not_lt.mpr hdeep)
    refine ⟨p, hp, ?_⟩
    rw [ofText, parse, loadDocument, hread]
    rfl

/-- A record that JSON text keeps is read from its JSON text as it is, with its names in their
order, if it is nested in fewer levels than a reader goes down, and is refused as too deep
otherwise. -/
theorem ofText_json {fields : Fields} (h : (Value.record fields).KeptByJson) :
    ∃ cs, (Value.record fields).json? = some cs
      ∧ ((Value.record fields).nesting < Yaml.maxDepth →
        ofText (String.ofList cs) = .ok (.record fields))
      ∧ (Yaml.maxDepth ≤ (Value.record fields).nesting → ∃ p : Yaml.Problem, p.reason = .tooDeep
        ∧ ofText (String.ofList cs) = .error (.document "schema" [⟨[], p.text⟩])) :=
  ⟨_, json?_of_kept h, ofText_jsonItem h⟩

/-- Names and texts that a document without quotes would take for something else. -/
def lookalikes : Fields :=
  [("7", .list [.number (.whole 9007199254740991), .number (.whole (-5)), .null, .bool true]),
    ("", .text "12"), ("__proto__", .text "true"), ("<<", .record [("a: b", .text "2020-01-01")]),
    ("~", .text "\"\\\n\x01")]

theorem keptByJson_lookalikes : (Value.record lookalikes).KeptByJson := by
  have hlarge : (Number.whole 9007199254740991).Representable :=
    Number.representable_whole (by decide +kernel)
  have hnegative : (Number.whole (-5)).Representable :=
    Number.representable_whole (by decide +kernel)
  have hindex : arrayIndex? "7" = some 7 := by decide +kernel
  have hnames : ∀ name ∈ ["", "__proto__", "<<", "~"], arrayIndex? name = none := by
    decide +kernel
  simp only [List.forall_mem_cons] at hnames
  have hordered : Fields.Ordered lookalikes := by
    simp [lookalikes, Fields.Ordered, Fields.Before, hindex, hnames]
  have hinner : Fields.Ordered [("a: b", Value.text "2020-01-01")] := List.pairwise_singleton _ _
  have hfields : FieldsKept lookalikes := by
    simp [lookalikes, FieldsKept, ItemsKept, KeptByJson, hlarge, hnegative, hinner,
      Number.isFinite]
  rw [KeptByJson]
  exact ⟨hordered, hfields⟩

/-- The JSON text of an object whose names and texts look like numbers, dates and notation. -/
def lookalikesText : String :=
  "\x7b\"7\":[9007199254740991,-5,null,true],\"\":\"12\",\"__proto__\":\"true\","
    ++ "\"<<\":\x7b\"a: b\":\"2020-01-01\"\x7d,\"~\":\"\\\"\\\\\\n\\u0001\"\x7d"

theorem ofText_json_lookalikes : ofText lookalikesText = .ok (.record lookalikes) := by
  obtain ⟨cs, hcs, hread, -⟩ := ofText_json keptByJson_lookalikes
  have htext : (Value.record lookalikes).json? = some lookalikesText.toList := by decide +kernel
  obtain rfl : _ = cs := Option.some.inj (htext.symm.trans hcs)
  rw [String.ofList_toList] at hread
  exact hread (by decide)

/-- Records in one another, with an empty one at the bottom. -/
def nested : Nat → Fields
  | 0 => []
  | n + 1 => [("a", .record (nested n))]

theorem nesting_nested (n : Nat) : (Value.record (nested n)).nesting = n + 1 := by
  induction n with
  | zero => rfl
  | succ n ih =>
    rw [nested, nesting, fieldsNesting, ih, fieldsNesting, Nat.max_zero]

theorem keptByJson_nested (n : Nat) : (Value.record (nested n)).KeptByJson := by
  induction n with
  | zero => exact ⟨List.Pairwise.nil, trivial⟩
  | succ n ih => exact ⟨List.pairwise_singleton _ _, ih, trivial⟩

/-- A hundred records in one another are refused. -/
theorem ofText_json_refused :
    (Value.record (nested 99)).KeptByJson
      ∧ ∃ cs, (Value.record (nested 99)).json? = some cs
        ∧ ∃ p : Yaml.Problem, p.reason = .tooDeep
          ∧ ofText (String.ofList cs) = .error (.document "schema" [⟨[], p.text⟩]) :=
  ⟨keptByJson_nested 99, _, json?_of_kept (keptByJson_nested 99),
    (ofText_jsonItem (keptByJson_nested 99)).2 (by rw [nesting_nested]; decide)⟩

end Schema

end ParamForm
