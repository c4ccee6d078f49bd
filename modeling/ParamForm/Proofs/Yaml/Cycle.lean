import Mathlib.Data.Finite.Prod
import Mathlib.Data.Set.Finite.Basic
import Mathlib.Logic.Relation
import ParamForm.Proofs.Yaml.Graph

/-!
# Collections inside themselves

A document has no end in a view exactly if something is seen in it that is inside itself: a link
leads through what is seen of the collections, from one link to the next, to one from which it goes
on until it comes back to that one (`Graph.endless_iff`).
-/

namespace ParamForm.Yaml

variable {σ : Type} {view : View σ} {look : σ}

/-- Whether a link is seen in a value, looked at in some way. -/
inductive Linked.Shows (view : View σ) : σ → Linked → Nat × σ → Prop
  | link {look : σ} {slot : Nat} : Shows view look (.link slot) (slot, look)
  | item {look below : σ} {items : List Linked} {l : Linked} {link : Nat × σ} :
    view.items look = some below → l ∈ items → Shows view below l link →
      Shows view look (.list items) link
  | field {look : σ} {below : String → σ} {fields : Fields Linked} {f : String × Linked}
    {link : Nat × σ} :
    view.fields look = some below → f ∈ fields → Shows view (below f.1) f.2 link →
      Shows view look (.record fields) link

section Spell

variable {next : σ → Nat → Option Value}

theorem spellItems_eq_none_iff {items : List Linked} :
    Linked.spellItems view next look items = none
      ↔ ∃ l ∈ items, l.spell view next look = none := by
  induction items with
  | nil => simp [Linked.spellItems]
  | cons l items ih =>
    rw [Linked.spellItems, List.exists_mem_cons_iff, ← ih]
    cases l.spell view next look <;> simp

theorem spellFields_eq_none_iff {below : String → σ} {fields : Fields Linked} :
    Linked.spellFields view next below fields = none
      ↔ ∃ f ∈ fields, f.2.spell view next (below f.1) = none := by
  induction fields with
  | nil => simp [Linked.spellFields]
  | cons f fields ih =>
    rw [Linked.spellFields, List.exists_mem_cons_iff, ← ih]
    cases f.2.spell view next (below f.1) <;> simp

theorem spell_eq_none_of_shows {l : Linked} {link : Nat × σ} (h : l.Shows view look link)
    (hnext : next link.2 link.1 = none) : l.spell view next look = none := by
  induction h with
  | link => exact hnext
  | item hbelow hl _ ih =>
    rw [Linked.spell, hbelow]
    exact Option.map_eq_none_iff.mpr (spellItems_eq_none_iff.mpr ⟨_, hl, ih hnext⟩)
  | field hbelow hf _ ih =>
    rw [Linked.spell, hbelow]
    exact Option.map_eq_none_iff.mpr (spellFields_eq_none_iff.mpr ⟨_, hf, ih hnext⟩)

theorem exists_shown_of_spell {look : σ} {l : Linked} (h : l.spell view next look = none) :
    ∃ link, l.Shows view look link ∧ next link.2 link.1 = none := by
  match l with
  | .leaf v => cases h
  | .list items =>
    rw [Linked.spell] at h
    split at h
    · cases h
    · rename_i below hbelow
      obtain ⟨l, hl, hnone⟩ := spellItems_eq_none_iff.mp (Option.map_eq_none_iff.mp h)
      obtain ⟨link, hshows, hlink⟩ := exists_shown_of_spell hnone
      exact ⟨link, .item hbelow hl hshows, hlink⟩
  | .record fields =>
    rw [Linked.spell] at h
    split at h
    · cases h
    · rename_i below hbelow
      obtain ⟨f, hf, hnone⟩ := spellFields_eq_none_iff.mp (Option.map_eq_none_iff.mp h)
      obtain ⟨link, hshows, hlink⟩ := exists_shown_of_spell hnone
      exact ⟨link, .field hbelow hf hshows, hlink⟩
  | .link slot => exact ⟨(slot, look), .link, h⟩
termination_by sizeOf l
decreasing_by
  · have := List.sizeOf_lt_of_mem hl
    simp only [Linked.list.sizeOf_spec]
    omega
  · have := List.sizeOf_lt_of_mem hf
    obtain ⟨name, l⟩ := f
    simp only [Linked.record.sizeOf_spec, Prod.mk.sizeOf_spec] at this ⊢
    omega

/-- A value has no end exactly if a link is seen in it that has none. -/
theorem spell_eq_none_iff {l : Linked} : l.spell view next look = none
    ↔ ∃ link, l.Shows view look link ∧ next link.2 link.1 = none :=
  ⟨exists_shown_of_spell, fun ⟨_, hshows, hnext⟩ => spell_eq_none_of_shows hshows hnext⟩

end Spell

namespace Graph

variable {g : Graph} {link inner : Nat × σ} {turns : Nat}

/-- Whether a link is seen in the collection that another one leads to. -/
def LeadsTo (g : Graph) (view : View σ) (link inner : Nat × σ) : Prop :=
  (g.collections.getD link.1 (.list [])).value.Shows view link.2 inner

/-- Whether something that is seen in a document is inside itself. -/
def InsideItself (g : Graph) (view : View σ) (look : σ) : Prop :=
  ∃ link inner, g.root.Shows view look link ∧ Relation.ReflTransGen (g.LeadsTo view) link inner
    ∧ Relation.TransGen (g.LeadsTo view) inner inner

theorem follow_succ_eq_none_iff : g.follow view (turns + 1) link.2 link.1 = none
    ↔ ∃ inner, g.LeadsTo view link inner ∧ g.follow view turns inner.2 inner.1 = none :=
  spell_eq_none_iff

/-- From a link that is inside itself, or leads to one, there is always a next link. -/
theorem follow_eq_none_of_cycle (hreach : Relation.ReflTransGen (g.LeadsTo view) link inner)
    (hcycle : Relation.TransGen (g.LeadsTo view) inner inner) :
    g.follow view turns link.2 link.1 = none := by
  induction turns generalizing link with
  | zero => rfl
  | succ turns ih =>
    rw [follow_succ_eq_none_iff]
    rcases Relation.ReflTransGen.cases_head hreach with rfl | ⟨next, hnext, hreach⟩
    · obtain ⟨next, hnext, hreach⟩ := Relation.TransGen.head'_iff.mp hcycle
      exact ⟨next, hnext, ih hreach⟩
    · exact ⟨next, hnext, ih hreach⟩

variable [Fintype σ]

/-- Enough turns: one more changes nothing. -/
theorem exists_settled (g : Graph) (view : View σ) :
    ∃ turns, g.follow view (turns + 2) = g.follow view (turns + 1) :=
  ⟨g.collections.length * Fintype.card σ, follow_eq_of_le le_rfl (Nat.le_succ _)⟩

theorem finite_follow_eq_none (g : Graph) (view : View σ) (turns : Nat) :
    {link : Nat × σ | g.follow view (turns + 1) link.2 link.1 = none}.Finite := by
  refine ((Set.finite_lt_nat g.collections.length).prod Set.finite_univ).subset ?_
  rintro ⟨slot, look⟩ hnone
  refine ⟨?_, trivial⟩
  by_contra hcon
  have hsome := isSome_follow_of_length_le view turns (not_lt.mp hcon) look
  rw [show g.follow view (turns + 1) look slot = none from hnone] at hsome
  cases hsome

/-- A link without end leads to one that is inside itself, for there are finitely many links without
end, and each leads to another one. -/
theorem exists_cycle (hsettled : g.follow view (turns + 2) = g.follow view (turns + 1))
    (hlink : g.follow view (turns + 1) link.2 link.1 = none) :
    ∃ inner, Relation.ReflTransGen (g.LeadsTo view) link inner
      ∧ Relation.TransGen (g.LeadsTo view) inner inner := by
  by_contra hcon
  push Not at hcon
  let Reached := {inner : Nat × σ // Relation.ReflTransGen (g.LeadsTo view) link inner
    ∧ g.follow view (turns + 1) inner.2 inner.1 = none}
  have : Finite Reached :=
    ((finite_follow_eq_none g view turns).subset fun _ hinner => And.right hinner).to_subtype
  have : IsTrans Reached fun a b => Relation.TransGen (g.LeadsTo view) b.1 a.1 :=
    ⟨fun _ _ _ hab hbc => hbc.trans hab⟩
  have : Std.Irrefl fun a b : Reached => Relation.TransGen (g.LeadsTo view) b.1 a.1 :=
    ⟨fun a => hcon a.1 a.2.1⟩
  have hwf := Finite.wellFounded_of_trans_of_irrefl
    fun a b : Reached => Relation.TransGen (g.LeadsTo view) b.1 a.1
  refine hwf.induction (C := fun _ => False) ⟨link, .refl, hlink⟩ fun last hlast => ?_
  obtain ⟨next, hnext, hnone⟩ := follow_succ_eq_none_iff.mp
    ((congrFun (congrFun hsettled _) _).trans last.2.2)
  exact hlast ⟨next, last.2.1.tail hnext, hnone⟩ (.single hnext)

/-- A document has no end in a view exactly if something that is seen in it is inside itself. -/
theorem endless_iff : g.Endless view look ↔ g.InsideItself view look := by
  constructor
  · intro h
    obtain ⟨turns, hsettled⟩ := exists_settled g view
    obtain ⟨link, hshows, hlink⟩ := spell_eq_none_iff.mp (h (turns + 1))
    obtain ⟨inner, hreach, hcycle⟩ := exists_cycle hsettled hlink
    exact ⟨link, inner, hshows, hreach, hcycle⟩
  · rintro ⟨link, inner, hshows, hreach, hcycle⟩ turns
    exact spell_eq_none_of_shows hshows (follow_eq_none_of_cycle hreach hcycle)

/-- A document is loaded as a value unless something in it is inside itself. -/
theorem loaded_eq_cyclic_iff : g.loaded = .cyclic g ↔ g.InsideItself .whole () := by
  have hways : Fintype.card Unit ≤ 1 := le_rfl
  rw [← endless_iff, ← spelled_eq_none_iff hways, loaded]
  cases g.spelled .whole 1 () <;> simp

end Graph

end ParamForm.Yaml
