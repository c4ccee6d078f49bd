import ParamForm.Proofs.Parameter.Tour
import ParamForm.Proofs.Schema.Widget

/-!
# Widgets of derived trees

A parameter is shown by a tag that suits its kind (`Tag.Suits`), unless its node is a string whose
format is a name that every table answers (`Schema.NamesInherited`): then its widget is no tag at
all. This holds of every parameter that a derivation makes, node by node, those of further keys
included (`Schema.shown_deriveRoot`).
-/

namespace ParamForm

open Value

/-- Whether a tag suits a kind. Which of two suits a string is up to the format, which of three
suits a list of scalars is up to the type of the items, and each other kind has its own tag. -/
inductive Tag.Suits (node : Value) : Kind → Tag → Prop
  | password : (node.member "format").text? = some "password".toList →
    Suits node .string .password
  | input : (node.member "format").text? ≠ some "password".toList → Suits node .string .input
  | strings : (node.member "items").member "type" = .text "string" →
    Suits node .arrayOfScalar .strings
  | numbers {name : String} : name ∈ ["number", "integer"] →
    (node.member "items").member "type" = .text name → Suits node .arrayOfScalar .numbers
  | switches : (node.member "items").member "type" = .text "boolean" →
    Suits node .arrayOfScalar .switches
  | usual {kind : Kind} : kind ≠ .string → kind ≠ .arrayOfScalar → Suits node kind kind.tag

namespace Widget

/-- The names that every table answers. -/
def inheritedNames : List String :=
  "__proto__" :: functionNames

theorem lookup_formats_of_mem {name : String} (h : name ∈ inheritedNames) :
    ∃ w, lookup formats name = some w ∧ ∀ t : Tag, w ≠ t.widget := by
  have hpassword : name ≠ "password" := by
    rintro rfl
    exact absurd h (by decide)
  rw [lookup_formats_eq, if_neg hpassword]
  split_ifs with hproto
  · exact ⟨.emptyRecord, rfl, fun t => nofun⟩
  · have hname : name ∈ functionNames := (List.mem_cons.mp h).resolve_left hproto
    rw [← isSome_lookup_commonFunctions_iff, Option.isSome_iff_exists] at hname
    obtain ⟨f, hf⟩ := hname
    rw [hf]
    exact ⟨.function f, rfl, fun t => nofun⟩

theorem lookup_formats_of_not_mem {name : String} (h : name ∉ inheritedNames) :
    lookup formats name = if name = "password" then some Tag.password.widget else none := by
  rw [inheritedNames, List.mem_cons, not_or, ← isSome_lookup_commonFunctions_iff,
    Option.not_isSome_iff_eq_none] at h
  rw [lookup_formats_eq, if_neg h.1, h.2, Option.map_none]

end Widget

namespace Schema

open Parameter Widget

/-- Whether the format of a string node is a name that every table answers. -/
def NamesInherited (node : Value) : Prop :=
  Kind.ofNode node = .string
    ∧ ∃ name ∈ inheritedNames, (node.member "format").text? = some name.toList

/-- Whether a parameter has the kind of a node and is shown by a tag that suits it, or by no tag
where the format of the node is a name that every table answers. -/
structure Shown (node : Value) (p : Parameter) : Prop where
  kind : p.kind = Kind.ofNode node
  suits : ¬ NamesInherited node → ∃ t : Tag, t.Suits node p.kind ∧ p.info.uiType = t.widget
  inherited : NamesInherited node → ∀ t : Tag, p.info.uiType ≠ t.widget

variable {node : Value} {w : Widget}

theorem namesInherited_iff {name : String} (hkind : Kind.ofNode node = .string)
    (htext : (node.member "format").text? = some name.toList) :
    NamesInherited node ↔ name ∈ inheritedNames := by
  rw [NamesInherited, exists_mem_text_iff htext]
  exact and_iff_right hkind

/-- The format of a string says if its widget is a tag. -/
theorem suits_string (hkind : Kind.ofNode node = .string) (h : ofNode? .string node = some w) :
    (¬ NamesInherited node → ∃ t : Tag, t.Suits node .string ∧ w = t.widget)
      ∧ (NamesInherited node → ∀ t : Tag, w ≠ t.widget) := by
  obtain ⟨name, htext, rfl⟩ := refine?_formats h
  rw [namesInherited_iff hkind htext]
  constructor
  · intro hnone
    rw [lookup_formats_of_not_mem hnone]
    split_ifs with hpassword
    · exact ⟨.password, .password (hpassword ▸ htext), rfl⟩
    · refine ⟨.input, .input fun heq => hpassword ?_, rfl⟩
      exact String.toList_injective (Option.some.inj (htext.symm.trans heq))
  · intro hname t
    obtain ⟨w, hw, hne⟩ := lookup_formats_of_mem hname
    rw [hw]
    exact hne t

/-- The type of the items says which of three tags a list of scalars has. -/
theorem suits_arrayOfScalar (hkind : Kind.ofNode node = .arrayOfScalar)
    (h : ofNode? .arrayOfScalar node = some w) :
    ∃ t : Tag, t.Suits node .arrayOfScalar ∧ w = t.widget := by
  obtain ⟨items, name, hitems, htype, hname⟩ := exists_itemType hkind
  rw [ofNode?, hitems] at h
  dsimp only at h
  rw [htype] at h
  rw [items?_eq_some hitems] at htype
  have htag {word : String} {t : Tag}
      (hword : refine? itemTypes (.text word) .arrayOfScalar = some t.widget)
      (heq : name = word) : w = t.widget := by
    rw [heq, hword] at h
    exact (Option.some.inj h).symm
  simp only [List.mem_cons, List.not_mem_nil, or_false] at hname
  rcases hname with hname | hname | hname | hname
  · exact ⟨.strings, .strings (hname ▸ htype), htag (by decide) hname⟩
  · exact ⟨.numbers, .numbers (by simp [hname]) htype, htag (by decide) hname⟩
  · exact ⟨.numbers, .numbers (by simp [hname]) htype, htag (by decide) hname⟩
  · exact ⟨.switches, .switches (hname ▸ htype), htag (by decide) hname⟩

theorem shown_of_info {defaultSort : Number} {name key : String} {required : Bool} {p : Parameter}
    (h : info defaultSort name key node required = .ok p.info) : Shown node p := by
  obtain ⟨w, hw, heq⟩ := exists_widget_of_info h
  have hkind : p.kind = Kind.ofNode node := congrArg ParameterInfo.kind heq
  have hwidget : p.info.uiType = w := congrArg ParameterInfo.uiType heq
  have hsuits : (¬ NamesInherited node →
      ∃ t : Tag, t.Suits node (Kind.ofNode node) ∧ w = t.widget)
        ∧ (NamesInherited node → ∀ t : Tag, w ≠ t.widget) := by
    have hother (hne : Kind.ofNode node ≠ .string) : ¬ NamesInherited node := fun h => hne h.1
    cases hof : Kind.ofNode node with
    | string =>
      rw [hof] at hw
      exact suits_string hof hw
    | arrayOfScalar =>
      rw [hof] at hw hother
      exact ⟨fun _ => suits_arrayOfScalar hof hw, fun h => absurd h (hother nofun)⟩
    | _ =>
      rw [hof] at hw hother
      refine ⟨fun _ => ⟨_, .usual nofun nofun, ?_⟩, fun h => absurd h (hother nofun)⟩
      exact (Option.some.inj hw).symm
  rw [← hkind, ← hwidget] at hsuits
  exact ⟨hkind, hsuits.1, hsuits.2⟩

theorem forall₂_of_madeEach {fields : Fields} {ps : List Parameter} {found : List Diagnostic}
    (h : MadeEach (fun node p _ => List.Forall₂ Shown (nodesFrom node) (tourOne p))
      fields ps found) : List.Forall₂ Shown (nodesOfFields fields) (tour ps) := by
  induction h with
  | nil =>
    rw [nodesOfFields, tour]
    exact .nil
  | cons hp _ ih =>
    rw [nodesOfFields, tour]
    exact List.rel_append hp ih

theorem forall₂_of_madeFurther {further : Option Value} {extra : Option Parameter}
    {found : List Diagnostic}
    (h : MadeFurther (fun node p _ => List.Forall₂ Shown (nodesFrom node) (tourOne p))
      further extra found) : List.Forall₂ Shown (further.elim [] nodesFrom) (tourExtra extra) := by
  cases h with
  | none => exact .nil
  | some hp => exact hp

theorem Shown.isTag_iff {p : Parameter} (h : Shown node p) :
    (∃ t : Tag, p.info.uiType = t.widget) ↔ ¬ NamesInherited node := by
  constructor
  · rintro ⟨t, ht⟩ hname
    exact h.inherited hname t ht
  · intro hnone
    obtain ⟨t, -, ht⟩ := h.suits hnone
    exact ⟨t, ht⟩

theorem forall_isTag_iff {nodes : List Value} {ps : List Parameter}
    (h : List.Forall₂ Shown nodes ps) :
    (∀ p ∈ ps, ∃ t : Tag, p.info.uiType = t.widget) ↔ ∀ node ∈ nodes, ¬ NamesInherited node := by
  induction h with
  | nil => simp
  | cons hp _ ih => rw [List.forall_mem_cons, List.forall_mem_cons, ih, hp.isTag_iff]

/-- A tour of a derived tree comes to one parameter for each node that the derivation comes to, in
the same order, with a widget that suits this node: a tag that suits the kind, and no tag exactly if
the node is a string whose format is a name that every table answers. -/
theorem shown_deriveRoot {defaultSort : Number} {schema : Value} {ps : List Parameter}
    {found : List Diagnostic} (h : deriveRoot defaultSort schema = .ok (ps, found)) :
    List.Forall₂ Shown (nodes schema) (tour ps)
      ∧ ((∀ p ∈ tour ps, ∃ t : Tag, p.info.uiType = t.widget)
        ↔ EveryNode (¬ NamesInherited ·) schema) := by
  have hshown : List.Forall₂ Shown (nodes schema) (tour ps) := by
    refine forall₂_of_madeEach (madeEach_deriveRoot ?_ h)
    intro name key node required p _ _ _ hinfo _ _ _ heach hextra
    rw [nodesFrom_eq, tourOne_eq]
    refine .cons (shown_of_info hinfo) (List.rel_append ?_ ?_)
    · exact forall₂_of_madeEach heach
    · exact forall₂_of_madeFurther hextra
  refine ⟨hshown, ?_⟩
  rw [forall_isTag_iff hshown, everyNode_iff]

/-- A password, a list of integers, and two strings whose formats are names that every table
answers, one of them under the further keys of a map. -/
theorem shown_deriveRoot_inherited :
    let text (format : String) : Value :=
      .record [("type", .text "string"), ("format", .text format)]
    let schema : Value := .record [("properties", .record
      [("p", text "password"),
        ("l", .record [("type", .text "array"), ("items", .record [("type", .text "integer")])]),
        ("m", .record [("type", .text "object"), ("additionalProperties", text "constructor")]),
        ("q", text "__proto__")])]
    ∃ ps found, deriveRoot (.whole 100) schema = .ok (ps, found)
      ∧ List.Forall₂ Shown (nodes schema) (tour ps)
      ∧ (tour ps).map (·.info.uiType) = [Tag.password.widget, Tag.numbers.widget, Tag.kv.widget,
          .function "Object", .emptyRecord]
      ∧ ¬ EveryNode (¬ NamesInherited ·) schema := by
  intro text schema
  obtain ⟨⟨ps, found⟩, h⟩ : ∃ made, deriveRoot (.whole 100) schema = .ok made :=
    exists_ok (by decide +kernel)
  have hmade : (deriveRoot (.whole 100) schema).toOption.map (fun made =>
      (tour made.1).map (·.info.uiType)) = some [Tag.password.widget, Tag.numbers.widget,
        Tag.kv.widget, .function "Object", .emptyRecord] := by
    decide +kernel
  rw [h] at hmade
  have hwidgets : (tour ps).map (·.info.uiType) = _ := Option.some.inj hmade
  obtain ⟨hshown, hiff⟩ := shown_deriveRoot h
  refine ⟨ps, found, h, hshown, hwidgets, fun hnone => ?_⟩
  have hmem : Widget.function "Object" ∈ (tour ps).map (·.info.uiType) := by
    rw [hwidgets]
    decide
  obtain ⟨p, hp, hfunction⟩ := List.mem_map.mp hmem
  obtain ⟨t, ht⟩ := hiff.mpr hnone p hp
  exact absurd (hfunction.symm.trans ht) nofun

end Schema

end ParamForm
