import Mathlib.Data.List.Basic
import ParamForm.Proofs.Schema.Kind
import ParamForm.Proofs.Value.Text
import ParamForm.Schema.Widget

/-!
# Widgets that cannot be looked up or copied

A node has no widget exactly if it is a string whose format has no text
(`Widget.ofNode?_eq_none_iff`), and its widget cannot be copied exactly if it is a string whose
format is the name of a function that every table answers (`Widget.isCopyable_eq_false_iff`).
-/

namespace ParamForm

namespace Widget

open Value Schema

/-- The names under which every table answers a function. -/
def functionNames : List String :=
  commonFunctions.map Prod.fst

theorem isCopyable_widget (t : Tag) : t.widget.isCopyable = true := rfl

theorem lookup_formats_eq (name : String) :
    lookup formats name = if name = "password" then some Tag.password.widget
      else if name = "__proto__" then some emptyRecord
      else (commonFunctions.lookup name).map function := by
  unfold lookup formats
  rw [List.lookup_cons, List.lookup_nil]
  by_cases hpassword : name = "password"
  · simp [hpassword]
  · have hbeq : (name == "password") = false := by simpa using hpassword
    simp [hpassword, hbeq]

theorem isSome_lookup_commonFunctions_iff (name : String) :
    (commonFunctions.lookup name).isSome = true ↔ name ∈ functionNames := by
  rw [List.lookup_isSome_iff, functionNames, List.mem_map]
  simp only [beq_iff_eq, @eq_comm _ name]

/-- The table of formats answers a function exactly to the names of the functions. -/
theorem isCopyable_lookup_formats_iff (name : String) (t : Tag) :
    ((lookup formats name).getD t.widget).isCopyable = false ↔ name ∈ functionNames := by
  rw [lookup_formats_eq]
  split_ifs with hpassword hproto
  · have hnone : "password" ∉ functionNames := by decide
    simp [hpassword, hnone, isCopyable_widget]
  · have hnone : "__proto__" ∉ functionNames := by decide
    simp [hproto, hnone, isCopyable]
  · rw [← isSome_lookup_commonFunctions_iff]
    cases commonFunctions.lookup name with
    | none => simp [isCopyable_widget]
    | some f => simp [isCopyable]

theorem refine?_eq_none_iff (table : List (String × Tag)) (v : Value) (kind : Kind) :
    refine? table v kind = none ↔ v.Mute := by
  unfold refine?
  split_ifs with htruthy
  · rw [Option.map_eq_none_iff, text?_eq_none_iff]
  · refine ⟨nofun, fun hmute => absurd ?_ htruthy⟩
    cases hmute <;> rfl

theorem exists_mem_text_iff {v : Value} {name : String} (htext : v.text? = some name.toList)
    {names : List String} : (∃ other ∈ names, v.text? = some other.toList) ↔ name ∈ names := by
  rw [htext]
  constructor
  · rintro ⟨other, hother, heq⟩
    rw [String.toList_injective (Option.some.inj heq)]
    exact hother
  · exact fun hname => ⟨name, hname, rfl⟩

/-- The texts of what does not count as true. -/
def falsyTexts : List String :=
  ["undefined", "null", "false", "", "NaN", "0"]

theorem exists_falsyText {v : Value} (h : v.isTruthy = false) :
    ∃ word ∈ falsyTexts, v.text? = some word.toList := by
  cases v with
  | absent => exact ⟨"undefined", by decide, rfl⟩
  | null => exact ⟨"null", by decide, rfl⟩
  | bool b =>
    cases b with
    | false => exact ⟨"false", by decide, rfl⟩
    | true => cases h
  | text s =>
    have hs : s = "" := by
      by_contra hne
      simp [isTruthy, hne] at h
    rw [hs]
    exact ⟨"", by decide, rfl⟩
  | number x =>
    have hx : x = .nan ∨ x = .whole 0 ∨ x = .negZero := by
      by_contra hne
      simp only [not_or] at hne
      simp [isTruthy, Number.isNan, hne] at h
    rcases hx with rfl | rfl | rfl
    · exact ⟨"NaN", by decide, rfl⟩
    · exact ⟨"0", by decide, rfl⟩
    · exact ⟨"0", by decide, rfl⟩
  | _ => cases h

/-- The widget that a format asks for is what the table answers to its text, also where the format
does not count as true: the table holds no such text. -/
theorem refine?_formats {v : Value} {w : Widget} (h : refine? formats v .string = some w) :
    ∃ name : String, v.text? = some name.toList
      ∧ w = (lookup formats name).getD Kind.string.tag.widget := by
  rw [refine?] at h
  split_ifs at h with htruthy
  · obtain ⟨cs, hcs, rfl⟩ := Option.map_eq_some_iff.mp h
    exact ⟨.ofList cs, by rw [hcs, String.toList_ofList], rfl⟩
  · obtain ⟨word, hword, htext⟩ := exists_falsyText (by simpa using htruthy)
    have hnone : ∀ word ∈ falsyTexts, lookup formats word = none := by
      decide
    refine ⟨word, htext, ?_⟩
    rw [hnone word hword, ← Option.some.inj h, Option.getD_none]

end Widget

namespace Schema

open Value

/-- Whether the format of a string node names a function that every table answers. -/
def NamesFunction (node : Value) : Prop :=
  Kind.ofNode node = .string
    ∧ ∃ name ∈ Widget.functionNames, (node.member "format").text? = some name.toList

/-- The items of an array of scalars are of a type that the table of item types holds. -/
theorem exists_itemType {node : Value} (h : Kind.ofNode node = .arrayOfScalar) :
    ∃ items name, items? node = some items ∧ items.member "type" = .text name
      ∧ name ∈ ["string", "number", "integer", "boolean"] := by
  have hshaped := shaped node
  rw [h] at hshaped
  cases hshaped with
  | arrayOfScalar hitems hscalar =>
    obtain ⟨name, hmem, hname⟩ := exists_type_of_isScalar hscalar
    exact ⟨_, name, hitems, hname, hmem⟩
  | plain hkind => simp at hkind

end Schema

namespace Widget

open Value Schema

theorem ofNode?_arrayOfScalar {node : Value} (h : Kind.ofNode node = .arrayOfScalar) :
    ∃ t : Tag, ofNode? .arrayOfScalar node = some t.widget := by
  obtain ⟨items, name, hitems, htype, hname⟩ := exists_itemType h
  have htable : ∀ word ∈ ["string", "number", "integer", "boolean"],
      ∃ t : Tag, refine? itemTypes (.text word) .arrayOfScalar = some t.widget := by
    simp only [List.forall_mem_cons]
    exact ⟨⟨.strings, by decide⟩, ⟨.numbers, by decide⟩, ⟨.numbers, by decide⟩,
      ⟨.switches, by decide⟩, nofun⟩
  simp only [ofNode?, hitems, htype]
  exact htable name hname

/-- A node has no widget exactly if it is a string whose format has no text. -/
theorem ofNode?_eq_none_iff {node : Value} :
    ofNode? (Kind.ofNode node) node = none
      ↔ Kind.ofNode node = .string ∧ (node.member "format").Mute := by
  cases hkind : Kind.ofNode node with
  | string =>
    rw [ofNode?, refine?_eq_none_iff]
    exact (and_iff_right rfl).symm
  | arrayOfScalar =>
    obtain ⟨t, ht⟩ := ofNode?_arrayOfScalar hkind
    simp [ht]
  | _ => simp [ofNode?]

/-- The widget of a node cannot be copied exactly if the format of the node names a function. -/
theorem isCopyable_eq_false_iff {node : Value} {w : Widget}
    (h : ofNode? (Kind.ofNode node) node = some w) :
    w.isCopyable = false ↔ NamesFunction node := by
  unfold NamesFunction
  cases hkind : Kind.ofNode node with
  | string =>
    rw [hkind] at h
    obtain ⟨name, htext, rfl⟩ := refine?_formats h
    rw [isCopyable_lookup_formats_iff, exists_mem_text_iff htext]
    exact (and_iff_right rfl).symm
  | arrayOfScalar =>
    obtain ⟨t, ht⟩ := ofNode?_arrayOfScalar hkind
    rw [hkind, ht] at h
    obtain rfl := Option.some.inj h
    simp [isCopyable_widget]
  | _ =>
    rw [hkind] at h
    obtain rfl := Option.some.inj h
    simp [isCopyable_widget]

end Widget

end ParamForm
