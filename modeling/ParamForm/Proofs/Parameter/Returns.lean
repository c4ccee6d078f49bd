import ParamForm.Proofs.Parameter.Sort
import ParamForm.Proofs.Parameter.Step
import ParamForm.Proofs.Render
import ParamForm.Proofs.Schema.Widget

/-!
# When rendering gives a result

Derivation fails only at a node of which something has to be written that has no text
(`Schema.returnsIff_derive`), and a derived tree cannot be copied only if the format of a string
names a function that every table of widgets answers (`Schema.allCopyable_deriveRoot`). Rendering
gives a result exactly if neither stands in its way (`Rendering.ofSchema_returns_iff`).
-/

namespace ParamForm

namespace Schema

open Value

/-- Whether what has to be written of a node has a text: the format of a string, and the type of a
node that cannot be shown by its structure. -/
structure HasTexts (node : Value) : Prop where
  format : Kind.ofNode node = .string → ¬ (node.member "format").Mute
  type : Kind.ofNode node = .fallback → ¬ (node.member "type").Mute

variable {defaultSort : Number} {name key parent : String} {node : Value} {required : Bool}
  {p : Parameter} {ps : List Parameter} {found : List Diagnostic}

theorem returnsIff_info : ReturnsIff .noText
    (Kind.ofNode node = .string → ¬ (node.member "format").Mute)
    (info defaultSort name key node required) := by
  have hnone : Widget.ofNode? (Kind.ofNode node) node = none ↔ _ := Widget.ofNode?_eq_none_iff
  unfold info
  cases hwidget : Widget.ofNode? (Kind.ofNode node) node with
  | none =>
    obtain ⟨hkind, hmute⟩ := hnone.mp hwidget
    simp only [hwidget]
    exact ⟨fun h => absurd hmute (h hkind), fun _ => rfl⟩
  | some w =>
    simp only [hwidget]
    refine .pure _ fun hkind hmute => ?_
    rw [hnone.mpr ⟨hkind, hmute⟩] at hwidget
    cases hwidget

theorem fallbackMessage?_eq_none_iff :
    fallbackMessage? node = none ↔ (node.member "type").Mute := by
  unfold fallbackMessage?
  split_ifs with hobject
  · have habsent : node.member "type" = .absent := by
      by_contra htype
      simp [isObject_of_member htype] at hobject
    rw [habsent]
    exact iff_of_false not_false (by rintro ⟨⟩)
  · split
    case h_4 => rw [Option.map_eq_none_iff, text?_eq_none_iff]
    all_goals
      rename_i htype
      rw [htype]
      exact iff_of_false (Option.some_ne_none _) (by rintro ⟨⟩)

theorem returnsIff_findings : ReturnsIff .noText
    (Kind.ofNode node = .fallback → ¬ (node.member "type").Mute)
    (findings (Kind.ofNode node) key node) := by
  rw [← fallbackMessage?_eq_none_iff]
  cases hkind : Kind.ofNode node with
  | fallback =>
    rw [findings]
    cases hmessage : fallbackMessage? node with
    | none => exact ⟨fun h => absurd rfl (h rfl), fun _ => rfl⟩
    | some message => exact .pure _ fun _ => Option.some_ne_none message
  | _ => exact .pure _ fun h => by cases h

/-- The parameters of some properties are made exactly if each of them is. -/
theorem returnsIff_deriveFields {requiredNames : List String} {fields : Fields}
    (h : ∀ f ∈ fields, ∀ name key required,
      ReturnsIff .noText (Everywhere HasTexts f.2) (derive defaultSort name key f.2 required)) :
    ReturnsIff .noText (∀ f ∈ fields, Everywhere HasTexts f.2)
      (deriveFields defaultSort parent requiredNames fields) := by
  induction fields with
  | nil =>
    rw [deriveFields]
    exact .pure _ (List.forall_mem_nil _)
  | cons f fields ih =>
    rw [List.forall_mem_cons] at h
    rw [deriveFields]
    have hrest (p : Parameter) (found : List Diagnostic) :
        ReturnsIff .noText (∀ f ∈ fields, Everywhere HasTexts f.2) (do
          let rest ← deriveFields defaultSort parent requiredNames fields
          .ok (p :: rest.1, found ++ rest.2)) :=
      ((ih h.2).bind fun _ _ => .pure _ trivial).congr (and_true _).to_iff
    refine ((h.1 _ _ _).bind fun made _ => hrest made.1 made.2).congr ?_
    rw [List.forall_mem_cons]

/-- A node gives a parameter exactly if no node that its derivation comes to lacks a text. -/
theorem returnsIff_derive (defaultSort : Number) (node : Value) :
    ∀ name key required, ReturnsIff .noText (Everywhere HasTexts node)
      (derive defaultSort name key node required) := by
  intro name key required
  have hbelow : ReturnsIff .noText (EveryNode HasTexts (childOwner node))
      (deriveBelow defaultSort key node) := by
    unfold deriveBelow
    rcases owner?_eq_or node with howner | ⟨howner, hfields⟩
    · rw [howner]
      exact (returnsIff_deriveFields fun f hf =>
        have := weight_of_mem_childOwner hf
        returnsIff_derive defaultSort f.2).map
    · rw [howner]
      exact .pure _ (by simp [EveryNode, hfields])
  have hfurther : ReturnsIff .noText
      (∀ further ∈ furtherKeys? (Kind.ofNode node) node, Everywhere HasTexts further)
      (deriveFurther defaultSort name key node) := by
    unfold deriveFurther
    cases hkeys : furtherKeys? (Kind.ofNode node) node with
    | none => exact .pure _ fun further h => absurd h (Option.not_mem_none further)
    | some further =>
      have := weight_furtherKeys hkeys
      refine (returnsIff_derive defaultSort further name key false).map.congr ?_
      simp
  rw [derive_eq]
  refine (returnsIff_info.bind fun _ _ => returnsIff_findings.bind fun _ _ =>
    hbelow.bind fun _ _ => hfurther.bind fun _ _ => .pure _ trivial).congr ?_
  rw [everywhere_iff, and_true, ← and_assoc]
  exact and_congr_left' ⟨fun h => ⟨h.1, h.2⟩, fun h => ⟨h.1, h.2⟩⟩
termination_by weight node

theorem isCopyable_info {made : ParameterInfo}
    (h : info defaultSort name key node required = .ok made) :
    made.uiType.isCopyable = true ↔ ¬ NamesFunction node := by
  obtain ⟨w, hwidget, rfl⟩ := exists_widget_of_info h
  rw [← Widget.isCopyable_eq_false_iff hwidget, Bool.not_eq_false]

theorem allCopyable_of_madeEach {fields : Fields}
    (h : MadeEach (fun node p _ => Parameter.isCopyable p = true
      ↔ Everywhere (¬ NamesFunction ·) node) fields ps found) :
    Parameter.allCopyable ps = true ↔ ∀ f ∈ fields, Everywhere (¬ NamesFunction ·) f.2 := by
  induction h with
  | nil => exact ⟨fun _ => List.forall_mem_nil _, fun _ => rfl⟩
  | cons hp _ ih => rw [Parameter.allCopyable, Bool.and_eq_true, hp, ih, List.forall_mem_cons]

/-- The tree of a schema can be copied exactly if no format in the schema names a function. -/
theorem allCopyable_deriveRoot {schema : Value}
    (h : deriveRoot defaultSort schema = .ok (ps, found)) :
    Parameter.allCopyable ps = true ↔ EveryNode (¬ NamesFunction ·) schema := by
  refine allCopyable_of_madeEach (madeEach_deriveRoot ?_ h)
  intro name key node required p _ _ _ hinfo _ _ _ heach hextra
  have hsubs : Parameter.optionsCopyable p.subParameters = true
      ↔ EveryNode (¬ NamesFunction ·) (childOwner node) := by
    rw [EveryNode, ← allCopyable_of_madeEach heach, Parameter.children]
    cases p.subParameters <;> rfl
  have hfurther : Parameter.extraCopyable p.additionalParameter = true
      ↔ ∀ further ∈ furtherKeys? (Kind.ofNode node) node,
        Everywhere (¬ NamesFunction ·) further := by
    generalize furtherKeys? (Kind.ofNode node) node = further, p.additionalParameter = extra
      at hextra
    cases hextra with
    | none => exact ⟨fun _ further h => absurd h (Option.not_mem_none further), fun _ => rfl⟩
    | some hv => simp [Parameter.extraCopyable, hv]
  rw [Parameter.isCopyable_eq, Bool.and_eq_true, Bool.and_eq_true, isCopyable_info hinfo, hsubs,
    hfurther, everywhere_iff, and_assoc]

end Schema

namespace Rendering

open Schema Value

variable {options : Options} {schema : Value}

theorem returnsIff_deriveRoot (defaultSort : Number) (schema : Value) :
    ReturnsIff .noText (EveryNode HasTexts schema) (deriveRoot defaultSort schema) := by
  rw [deriveRoot_eq]
  exact returnsIff_deriveFields fun f _ => returnsIff_derive defaultSort f.2

/-- The tree without overrides can be copied exactly if no format in the schema names a function. -/
theorem allCopyable_base {base : Rendering} (h : ofSchema options schema [] = .ok base) :
    Parameter.allCopyable base.parameters = true ↔ EveryNode (¬ NamesFunction ·) schema := by
  obtain ⟨derived, hderived, hsorted⟩ := exists_derived h
  rw [hsorted, Parameter.allCopyable_arrange]
  exact allCopyable_deriveRoot hderived

theorem returnsIff_base (options : Options) (schema : Value) :
    ReturnsIff .noText (EveryNode HasTexts schema) (ofSchema options schema []) :=
  ((returnsIff_deriveRoot options.defaultSort schema).bind fun _ _ => .pure _ trivial).congr
    (and_true _).to_iff

theorem ofSchema_of_not_texts (h : ¬ EveryNode HasTexts schema) (os : List Override) :
    ofSchema options schema os = .error .noText := by
  rw [ofSchema, (returnsIff_deriveRoot options.defaultSort schema).error h]
  rfl

theorem ofSchema_of_texts (h : EveryNode HasTexts schema) {os : List Override}
    (hos : os = [] ∨ EveryNode (¬ NamesFunction ·) schema) :
    ∃ r, ofSchema options schema os = .ok r := by
  obtain ⟨base, hbase⟩ := (returnsIff_base options schema).ok h
  rcases hos with rfl | hnames
  · exact ⟨base, hbase⟩
  · obtain ⟨r, hr, -⟩ := ofSchema_of_copyable hbase ((allCopyable_base hbase).mpr hnames) os
    exact ⟨r, hr⟩

theorem ofSchema_of_function (h : EveryNode HasTexts schema) {os : List Override} (hos : os ≠ [])
    (hnames : ¬ EveryNode (¬ NamesFunction ·) schema) :
    ofSchema options schema os = .error .notCopyable := by
  obtain ⟨base, hbase⟩ := (returnsIff_base options schema).ok h
  obtain ⟨o, os, rfl⟩ := List.exists_cons_of_ne_nil hos
  have hcopy : ¬ Parameter.allCopyable base.parameters = true :=
    mt (allCopyable_base hbase).mp hnames
  rw [ofSchema_eq hbase, Parameter.patch, if_neg hcopy]
  rfl

/-- Rendering gives a result exactly if nothing that it writes lacks a text and, where there are
overrides to lay over the tree, no format names a function that every table answers. It fails in
these two ways alone. -/
theorem ofSchema_returns_iff (options : Options) (schema : Value) (os : List Override) :
    ((∃ r, ofSchema options schema os = .ok r)
        ↔ EveryNode HasTexts schema ∧ (os = [] ∨ EveryNode (¬ NamesFunction ·) schema))
      ∧ (ofSchema options schema os = .error .noText ↔ ¬ EveryNode HasTexts schema)
      ∧ (ofSchema options schema os = .error .notCopyable
        ↔ EveryNode HasTexts schema ∧ os ≠ [] ∧ ¬ EveryNode (¬ NamesFunction ·) schema) := by
  by_cases htexts : EveryNode HasTexts schema
  · by_cases hos : os = [] ∨ EveryNode (¬ NamesFunction ·) schema
    · obtain ⟨r, hr⟩ : ∃ r, ofSchema options schema os = .ok r := ofSchema_of_texts htexts hos
      simp [hr, htexts, hos]
      tauto
    · obtain ⟨hne, hnames⟩ := not_or.mp hos
      simp [ofSchema_of_function htexts hne hnames, htexts, hne, hnames]
  · simp [ofSchema_of_not_texts htexts os, htexts]

/-- A string whose format names a function is shown without overrides but not with one, and a
string whose format hides its text is not shown at all. -/
theorem ofSchema_returns_iff_format :
    let shown (format : Value) : Value := .record [("properties", .record
      [("a", .record [("type", .text "string"), ("format", format)])])]
    let named := shown (.list [.text "constructor"])
    let hidden := shown (.record [("toString", .number (.whole 1))])
    let os : List Override := [{ jsonKey := "a", label := some "A" }]
    (∃ r, ofSchema .defaults named [] = .ok r) ∧ (¬ ∃ r, ofSchema .defaults named os = .ok r)
      ∧ (¬ ∃ r, ofSchema .defaults hidden [] = .ok r)
      ∧ EveryNode HasTexts named ∧ ¬ EveryNode (¬ NamesFunction ·) named
      ∧ ¬ EveryNode HasTexts hidden := by
  intro shown named hidden os
  have hfails : ∀ {made : Except Failure Rendering}, made.isOk = false → ¬ ∃ r, made = .ok r := by
    rintro _ h ⟨r, rfl⟩
    cases h
  have hbase : ∃ r, ofSchema .defaults named [] = .ok r := exists_ok (by decide +kernel)
  have hnamed : ¬ ∃ r, ofSchema .defaults named os = .ok r := hfails (by decide +kernel)
  have hhidden : ¬ ∃ r, ofSchema .defaults hidden [] = .ok r := hfails (by decide +kernel)
  have htexts := ((ofSchema_returns_iff .defaults named []).1.mp hbase).1
  refine ⟨hbase, hnamed, hhidden, htexts, fun hnames => hnamed ?_, fun htexts => hhidden ?_⟩
  · exact (ofSchema_returns_iff .defaults named os).1.mpr ⟨htexts, .inr hnames⟩
  · exact (ofSchema_returns_iff .defaults hidden []).1.mpr ⟨htexts, .inl rfl⟩

end Rendering

end ParamForm
