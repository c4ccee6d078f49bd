import ParamForm.Proofs.Schema.Property

/-!
# What the kind of a node says

A node of a kind that is shown by structure has the parts that this structure is read from
(`Schema.shaped`), and a node is of kind `enum` exactly if it has a list of allowed values that is
not empty (`Kind.ofNode_eq_enum_iff`).
-/

namespace ParamForm

namespace Schema

open Value

variable {node : Value}

/-- What has no parts is found nothing in. -/
theorem isObject_of_member {name : String} (h : node.member name ≠ .absent) :
    node.isObject = true := by
  cases node with
  | record fields => rfl
  | date ms => rfl
  | bytes bs => rfl
  | _ => exact absurd rfl h

theorem items?_eq_some {items : Value} (h : items? node = some items) :
    items = node.member "items" := by
  simp only [items?] at h
  split at h
  · exact (Option.some.inj h).symm
  · cases h

theorem valueSchema?_eq_some {further : Value} (h : valueSchema? node = some further) :
    further = node.member "additionalProperties" := by
  simp only [valueSchema?] at h
  split at h
  · exact (Option.some.inj h).symm
  · cases h

theorem ownFields_ne_nil (h : hasProperties node = true) : ownFields node ≠ [] := by
  rw [hasProperties] at h
  rw [← getD_properties?]
  cases hfields : properties? node with
  | none =>
    rw [hfields] at h
    cases h
  | some fields =>
    rw [hfields] at h
    simpa using h

/-- The type of a scalar is one of four. -/
theorem exists_type_of_isScalar (h : isScalar node = true) :
    ∃ name ∈ ["string", "number", "integer", "boolean"], node.member "type" = .text name := by
  obtain ⟨name, hmem, hname⟩ := List.any_eq_true.mp h
  unfold hasType at hname
  split at hname
  · rename_i s hs
    obtain rfl := beq_iff_eq.mp hname
    exact ⟨_, hmem, hs⟩
  · cases hname

/-- The parts that a node has because of its kind. -/
inductive Shaped (node : Value) : Kind → Prop
  | enum {vs : List Value} : node.member "enum" = .list vs → vs ≠ [] → Shaped node .enum
  | object : isObjectShaped node = true → Shaped node .object
  | map {further : Value} : valueSchema? node = some further → Shaped node .map
  | arrayOfObject {items : Value} : items? node = some items → isObjectShaped items = true →
    Shaped node .arrayOfObject
  | arrayOfScalar {items : Value} : items? node = some items → isScalar items = true →
    Shaped node .arrayOfScalar
  | plain {kind : Kind} : kind ∈ [.string, .number, .boolean, .fallback] → Shaped node kind

theorem shaped_ofItems (node : Value) : Shaped node (Kind.ofItems (items? node)) := by
  cases hitems : items? node with
  | none => exact .plain (by decide)
  | some items =>
    rw [Kind.ofItems]
    split_ifs with hobject hscalar
    · exact .arrayOfObject hitems hobject
    · exact .arrayOfScalar hitems hscalar
    · exact .plain (by decide)

/-- A node has the parts that its kind says. -/
theorem shaped (node : Value) : Shaped node (Kind.ofNode node) := by
  have hplain {kind : Kind} (h : kind ∈ [.string, .number, .boolean, .fallback]) :
      Shaped node kind := .plain h
  unfold Kind.ofNode
  split
  · exact hplain (by decide)
  split
  · rename_i henum
    cases hvalues : node.member "enum" with
    | list vs =>
      rw [hvalues] at henum
      exact .enum hvalues (by simpa [asList?] using henum)
    | _ =>
      rw [hvalues] at henum
      cases henum
  split
  · exact .object ‹_›
  split
  case h_5 =>
    split
    · rename_i hfurther
      obtain ⟨further, hfurther⟩ := Option.isSome_iff_exists.mp hfurther
      exact .map hfurther
    · exact hplain (by decide)
  case h_6 => exact shaped_ofItems node
  all_goals exact hplain (by decide)

theorem isObjectShaped_childOwner
    (h : Kind.ofNode node = .object ∨ Kind.ofNode node = .arrayOfObject) :
    isObjectShaped (childOwner node) = true := by
  have hshaped := shaped node
  unfold childOwner
  rcases h with h | h <;> rw [h] at hshaped ⊢
  · cases hshaped with
    | object hobject => exact hobject
    | plain hkind => simp at hkind
  · cases hshaped with
    | arrayOfObject hitems hobject => exact items?_eq_some hitems ▸ hobject
    | plain hkind => simp at hkind

end Schema

theorem Kind.ofNode_eq_enum_iff {node : Value} :
    Kind.ofNode node = .enum ↔ ∃ vs, node.member "enum" = .list vs ∧ vs ≠ [] := by
  constructor
  · intro h
    have hshaped := Schema.shaped node
    rw [h] at hshaped
    cases hshaped with
    | enum hvalues hne => exact ⟨_, hvalues, hne⟩
    | plain hkind => simp at hkind
  · rintro ⟨vs, hvalues, hne⟩
    have hobject : node.isObject = true :=
      Schema.isObject_of_member (show node.member "enum" ≠ .absent by simp [hvalues])
    simp [ofNode, hobject, hvalues, Value.asList?, hne]

end ParamForm
