import ParamForm.Proofs.Value.WellFormed
import ParamForm.Yaml.Graph

/-!
# Values without links

A value is one with links that has none (`Linked.ofValue`). Spelled out, it is what is seen of it,
and in the view of everything that is the value itself.
-/

namespace ParamForm.Yaml

mutual

/-- A value as one with links, of which it has none. -/
def Linked.ofValue : Value → Linked
  | .list vs => .list (Linked.ofItems vs)
  | .record fields => .record (Linked.ofFields fields)
  | v => .leaf v

/-- The elements of a list as ones with links. -/
def Linked.ofItems : List Value → List Linked
  | [] => []
  | v :: vs => Linked.ofValue v :: Linked.ofItems vs

/-- The fields of a record as ones with links. -/
def Linked.ofFields : List (String × Value) → List (String × Linked)
  | [] => []
  | (name, v) :: fields => (name, Linked.ofValue v) :: Linked.ofFields fields

end

namespace Linked

theorem ofItems_eq_map (vs : List Value) : ofItems vs = vs.map ofValue := by
  induction vs with
  | nil => rfl
  | cons v vs ih => rw [ofItems, ih, List.map_cons]

theorem ofFields_eq_map (fields : Fields) :
    ofFields fields = fields.map fun f => (f.1, ofValue f.2) := by
  induction fields with
  | nil => rfl
  | cons f fields ih => rw [ofFields, ih, List.map_cons]

end Linked

section Seen

variable {σ : Type} (view : View σ)

/-- What tells lists from each other as little as records does not tell what is seen of a value from
the value. -/
theorem eq_of_seen {α : Sort*} (f : Value → α) (hlist : ∀ vs ws, f (.list vs) = f (.list ws))
    (hrecord : ∀ fields parts, f (.record fields) = f (.record parts)) (look : σ) (v : Value) :
    f (view.seen look v) = f v := by
  cases v with
  | list vs =>
    rw [View.seen]
    split <;> exact hlist _ _
  | record fields =>
    rw [View.seen]
    split <;> exact hrecord _ _
  | _ => rfl

mutual

theorem spell_ofValue (next : σ → Nat → Option Value) (look : σ) (v : Value) :
    (Linked.ofValue v).spell view next look = some (view.seen look v) := by
  match v with
  | .list vs =>
    rw [Linked.ofValue, Linked.spell, View.seen]
    cases view.items look with
    | none => rfl
    | some below => simp [spellItems_ofItems next below vs]
  | .record fields =>
    rw [Linked.ofValue, Linked.spell, View.seen]
    cases view.fields look with
    | none => rfl
    | some below => simp [spellFields_ofFields next below fields]
  | .absent | .null | .bool _ | .number _ | .text _ | .date _ | .bytes _ => rfl

theorem spellItems_ofItems (next : σ → Nat → Option Value) (look : σ) (vs : List Value) :
    Linked.spellItems view next look (Linked.ofItems vs) = some (view.seenItems look vs) := by
  match vs with
  | [] => rfl
  | v :: vs =>
    simp [Linked.ofItems, Linked.spellItems, View.seenItems, spell_ofValue next look v,
      spellItems_ofItems next look vs]

theorem spellFields_ofFields (next : σ → Nat → Option Value) (below : String → σ)
    (fields : Fields) :
    Linked.spellFields view next below (Linked.ofFields fields)
      = some (view.seenFields below fields) := by
  match fields with
  | [] => rfl
  | (name, v) :: fields =>
    simp [Linked.ofFields, Linked.spellFields, View.seenFields, spell_ofValue next (below name) v,
      spellFields_ofFields next below fields]

end

end Seen

section All

variable {σ : Type} {view : View σ} {look : σ}

mutual

/-- All of a value is seen where everything in it is looked at in the same way. -/
theorem seen_eq_self (hitems : view.items look = some look)
    (hfields : view.fields look = some fun _ => look) (v : Value) : view.seen look v = v := by
  match v with
  | .list vs =>
    rw [View.seen, hitems]
    exact congrArg Value.list (seenItems_eq_self hitems hfields vs)
  | .record fields =>
    rw [View.seen, hfields]
    exact congrArg Value.record (seenFields_eq_self hitems hfields fields)
  | .absent | .null | .bool _ | .number _ | .text _ | .date _ | .bytes _ => rfl

theorem seenItems_eq_self (hitems : view.items look = some look)
    (hfields : view.fields look = some fun _ => look) (vs : List Value) :
    view.seenItems look vs = vs := by
  match vs with
  | [] => rfl
  | v :: vs =>
    rw [View.seenItems, seen_eq_self hitems hfields v, seenItems_eq_self hitems hfields vs]

theorem seenFields_eq_self (hitems : view.items look = some look)
    (hfields : view.fields look = some fun _ => look) (fields : Fields) :
    view.seenFields (fun _ => look) fields = fields := by
  match fields with
  | [] => rfl
  | (name, v) :: fields =>
    rw [View.seenFields, seen_eq_self hitems hfields v, seenFields_eq_self hitems hfields fields]

end

end All

theorem seen_whole (v : Value) : View.whole.seen () v = v :=
  seen_eq_self rfl rfl v

section Spell

variable {σ : Type} {view : View σ} {next : σ → Nat → Option Value} {look : σ} {v : Value}

theorem exists_list_of_spell {items : List Linked}
    (h : (Linked.list items).spell view next look = some v) : ∃ vs, v = .list vs := by
  rw [Linked.spell] at h
  split at h
  · exact ⟨[], (Option.some.inj h).symm⟩
  · obtain ⟨vs, -, hv⟩ := Option.map_eq_some_iff.mp h
    exact ⟨vs, hv.symm⟩

theorem exists_record_of_spell {fields : Fields Linked}
    (h : (Linked.record fields).spell view next look = some v) : ∃ parts, v = .record parts := by
  rw [Linked.spell] at h
  split at h
  · exact ⟨[], (Option.some.inj h).symm⟩
  · obtain ⟨parts, -, hv⟩ := Option.map_eq_some_iff.mp h
    exact ⟨parts, hv.symm⟩

/-- What a link leads to is a list or a record. -/
theorem collection_of_follow {g : Graph} {turns slot : Nat}
    (h : g.follow view turns look slot = some v) :
    (∃ vs, v = .list vs) ∨ ∃ fields, v = .record fields := by
  cases turns with
  | zero => cases h
  | succ turns =>
    rw [Graph.follow] at h
    cases hfound : g.collections.getD slot (.list []) with
    | list items => exact .inl (exists_list_of_spell (by rwa [hfound] at h))
    | record fields => exact .inr (exists_record_of_spell (by rwa [hfound] at h))

end Spell

/-- A document without links is loaded as the value that it is. -/
theorem loaded_ofValue (v : Value) (collections : List Collection) :
    Graph.loaded ⟨.ofValue v, collections⟩ = .tree v := by
  rw [Graph.loaded, Graph.spelled, spell_ofValue, seen_whole]

theorem Linked.ofValue_injective : Function.Injective Linked.ofValue := fun v w h => by
  have hloaded := loaded_ofValue v []
  rw [h, loaded_ofValue] at hloaded
  exact (Loaded.tree.inj hloaded).symm

end ParamForm.Yaml
