import Mathlib.Data.Fintype.Card
import Mathlib.Data.Fintype.Prod
import ParamForm.Proofs.Yaml.Linked

/-!
# Links without end

Following more links never changes what a document is spelled out as, and there are only finitely
many collections and ways to look at them, so that `Graph.spelled` follows enough of them: where it
comes to nothing, no number of links does (`Graph.spelled_eq_none_iff`). In a view, what is seen of
a document is what is seen of the value that it is loaded as (`Graph.spelled_of_loaded`).
-/

namespace ParamForm.Yaml

section Spell

variable {σ : Type} {view : View σ}

mutual

theorem spell_mono {next next' : σ → Nat → Option Value}
    (h : ∀ look slot v, next look slot = some v → next' look slot = some v) {look : σ} {l : Linked}
    {v : Value} (hv : l.spell view next look = some v) : l.spell view next' look = some v := by
  match l with
  | .leaf w => exact hv
  | .list items =>
    rw [Linked.spell] at hv ⊢
    split at hv
    · exact hv
    · obtain ⟨vs, hvs, rfl⟩ := Option.map_eq_some_iff.mp hv
      rw [spellItems_mono h hvs, Option.map_some]
  | .record fields =>
    rw [Linked.spell] at hv ⊢
    split at hv
    · exact hv
    · obtain ⟨parts, hparts, rfl⟩ := Option.map_eq_some_iff.mp hv
      rw [spellFields_mono h hparts, Option.map_some]
  | .link slot => exact h look slot v hv

theorem spellItems_mono {next next' : σ → Nat → Option Value}
    (h : ∀ look slot v, next look slot = some v → next' look slot = some v) {look : σ}
    {items : List Linked} {vs : List Value}
    (hvs : Linked.spellItems view next look items = some vs) :
    Linked.spellItems view next' look items = some vs := by
  match items with
  | [] => exact hvs
  | l :: items =>
    rw [Linked.spellItems] at hvs ⊢
    obtain ⟨v, hv, hvs⟩ := Option.bind_eq_some_iff.mp hvs
    obtain ⟨ws, hws, rfl⟩ := Option.map_eq_some_iff.mp hvs
    rw [spell_mono h hv, Option.bind_some, spellItems_mono h hws, Option.map_some]

theorem spellFields_mono {next next' : σ → Nat → Option Value}
    (h : ∀ look slot v, next look slot = some v → next' look slot = some v) {below : String → σ}
    {fields : List (String × Linked)} {parts : Fields}
    (hparts : Linked.spellFields view next below fields = some parts) :
    Linked.spellFields view next' below fields = some parts := by
  match fields with
  | [] => exact hparts
  | (name, l) :: fields =>
    rw [Linked.spellFields] at hparts ⊢
    obtain ⟨v, hv, hparts⟩ := Option.bind_eq_some_iff.mp hparts
    obtain ⟨rest, hrest, rfl⟩ := Option.map_eq_some_iff.mp hparts
    rw [spell_mono h hv, Option.bind_some, spellFields_mono h hrest, Option.map_some]

end

mutual

theorem spell_of_whole {next : Unit → Nat → Option Value} {next' : σ → Nat → Option Value}
    (h : ∀ look slot v, next () slot = some v → next' look slot = some (view.seen look v))
    {look : σ} {l : Linked} {v : Value} (hv : l.spell .whole next () = some v) :
    l.spell view next' look = some (view.seen look v) := by
  match l with
  | .leaf w =>
    rw [Linked.spell, seen_whole] at hv
    rw [← Option.some.inj hv, Linked.spell]
  | .list items =>
    obtain ⟨vs, hvs, rfl⟩ := Option.map_eq_some_iff.mp hv
    rw [Linked.spell, View.seen]
    cases view.items look with
    | none => rfl
    | some below => simp [spellItems_of_whole h hvs]
  | .record fields =>
    obtain ⟨parts, hparts, rfl⟩ := Option.map_eq_some_iff.mp hv
    rw [Linked.spell, View.seen]
    cases view.fields look with
    | none => rfl
    | some below => simp [spellFields_of_whole h hparts]
  | .link slot => exact h look slot v hv

theorem spellItems_of_whole {next : Unit → Nat → Option Value} {next' : σ → Nat → Option Value}
    (h : ∀ look slot v, next () slot = some v → next' look slot = some (view.seen look v))
    {look : σ} {items : List Linked} {vs : List Value}
    (hvs : Linked.spellItems .whole next () items = some vs) :
    Linked.spellItems view next' look items = some (view.seenItems look vs) := by
  match items with
  | [] =>
    obtain rfl := Option.some.inj hvs
    rfl
  | l :: items =>
    rw [Linked.spellItems] at hvs
    obtain ⟨v, hv, hvs⟩ := Option.bind_eq_some_iff.mp hvs
    obtain ⟨ws, hws, rfl⟩ := Option.map_eq_some_iff.mp hvs
    rw [Linked.spellItems, spell_of_whole h hv, Option.bind_some, spellItems_of_whole h hws,
      Option.map_some, View.seenItems]

theorem spellFields_of_whole {next : Unit → Nat → Option Value} {next' : σ → Nat → Option Value}
    (h : ∀ look slot v, next () slot = some v → next' look slot = some (view.seen look v))
    {below : String → σ} {fields : List (String × Linked)} {parts : Fields}
    (hparts : Linked.spellFields .whole next (fun _ => ()) fields = some parts) :
    Linked.spellFields view next' below fields = some (view.seenFields below parts) := by
  match fields with
  | [] =>
    obtain rfl := Option.some.inj hparts
    rfl
  | (name, l) :: fields =>
    rw [Linked.spellFields] at hparts
    obtain ⟨v, hv, hparts⟩ := Option.bind_eq_some_iff.mp hparts
    obtain ⟨rest, hrest, rfl⟩ := Option.map_eq_some_iff.mp hparts
    rw [Linked.spellFields, spell_of_whole h hv, Option.bind_some, spellFields_of_whole h hrest,
      Option.map_some, View.seenFields]

end

end Spell

namespace Graph

variable {σ : Type} {g : Graph} {view : View σ} {turns : Nat}

/-- Whether no number of links is enough to spell a document out in a view. -/
def Endless (g : Graph) (view : View σ) (look : σ) : Prop :=
  ∀ turns, g.root.spell view (g.follow view turns) look = none

theorem follow_succ {look : σ} {slot : Nat} {v : Value}
    (h : g.follow view turns look slot = some v) :
    g.follow view (turns + 1) look slot = some v := by
  induction turns generalizing look slot v with
  | zero => cases h
  | succ turns ih => exact spell_mono (fun look slot v => ih) h

theorem follow_mono {more : Nat} (hle : turns ≤ more) {look : σ} {slot : Nat} {v : Value}
    (h : g.follow view turns look slot = some v) : g.follow view more look slot = some v :=
  Nat.le_induction h (fun _ _ => follow_succ) more hle

/-- A turn that brings nothing new is followed by none that does. -/
theorem follow_of_settled (h : g.follow view (turns + 1) = g.follow view turns) (more : Nat) :
    g.follow view (turns + more) = g.follow view turns := by
  induction more with
  | zero => rfl
  | succ more ih =>
    funext look slot
    rw [← h, ← Nat.add_assoc, follow, follow, ih]

/-- A link that leads to no collection is at its end at once. -/
theorem isSome_follow_of_length_le (view : View σ) (turns : Nat) {slot : Nat}
    (h : g.collections.length ≤ slot) (look : σ) :
    (g.follow view (turns + 1) look slot).isSome = true := by
  have hfound : g.collections.getD slot (.list []) = .list [] := by
    rw [List.getD_eq_getElem?_getD, List.getElem?_eq_none h, Option.getD_none]
  rw [follow, hfound, Collection.value, Linked.spell]
  cases view.items look <;> rfl

section Settled

variable [Fintype σ]

/-- The links to collections that have an end after a number of turns. -/
def ended (g : Graph) (view : View σ) (turns : Nat) : Finset (Fin g.collections.length × σ) :=
  {link | (g.follow view turns link.2 link.1).isSome}

/-- A turn that is not settled ends another link. -/
theorem ended_ssubset (hne : g.follow view (turns + 2) ≠ g.follow view (turns + 1)) :
    g.ended view (turns + 1) ⊂ g.ended view (turns + 2) := by
  obtain ⟨look, hlook⟩ := Function.ne_iff.mp hne
  obtain ⟨slot, hslot⟩ := Function.ne_iff.mp hlook
  have hopen : g.follow view (turns + 1) look slot = none := by
    by_contra hsome
    obtain ⟨v, hv⟩ := Option.ne_none_iff_exists'.mp hsome
    exact hslot ((follow_succ hv).trans hv.symm)
  have hlt : slot < g.collections.length := by
    by_contra hcon
    have hsome := isSome_follow_of_length_le view turns (not_lt.mp hcon) look
    rw [hopen] at hsome
    cases hsome
  refine Finset.ssubset_iff_of_subset (fun link hlink => ?_) |>.mpr ⟨(⟨slot, hlt⟩, look), ?_, ?_⟩
  · obtain ⟨v, hv⟩ := Option.isSome_iff_exists.mp (Finset.mem_filter.mp hlink).2
    exact Finset.mem_filter.mpr ⟨Finset.mem_univ _, by rw [follow_succ hv]; rfl⟩
  · rw [hopen] at hslot
    exact Finset.mem_filter.mpr ⟨Finset.mem_univ _, Option.isSome_iff_ne_none.mpr hslot⟩
  · simp [ended, hopen]

theorem le_card_ended (h : ∀ turn < turns, g.follow view (turn + 2) ≠ g.follow view (turn + 1)) :
    turns ≤ (g.ended view (turns + 1)).card := by
  induction turns with
  | zero => exact Nat.zero_le _
  | succ turns ih =>
    have hbefore := ih fun turn hturn => h turn (Nat.lt_succ_of_lt hturn)
    have hmore := Finset.card_lt_card (ended_ssubset (h turns (Nat.lt_succ_self _)))
    exact Nat.lt_of_le_of_lt hbefore hmore

/-- Links are settled after as many turns as there are collections and ways to look at them, and one
more. -/
theorem follow_eq_of_le {ways : Nat} (hways : Fintype.card σ ≤ ways)
    (hturns : g.collections.length * ways + 1 ≤ turns) :
    g.follow view turns = g.follow view (g.collections.length * ways + 1) := by
  set bound := g.collections.length * ways with hbound
  obtain ⟨turn, hturn, hsettled⟩ :
      ∃ turn ≤ bound, g.follow view (turn + 2) = g.follow view (turn + 1) := by
    by_contra hcon
    push Not at hcon
    have hcard : bound + 1 ≤ (g.ended view (bound + 1 + 1)).card :=
      le_card_ended fun turn hturn => hcon turn (Nat.le_of_lt_succ hturn)
    have hall : (g.ended view (bound + 1 + 1)).card ≤ g.collections.length * Fintype.card σ := by
      simpa using Finset.card_le_univ (g.ended view (bound + 1 + 1))
    have hbelow := hall.trans (Nat.mul_le_mul_left _ hways)
    omega
  have hsettled := follow_of_settled hsettled
  obtain ⟨k, hk⟩ := Nat.exists_eq_add_of_le (Nat.add_le_add_right hturn 1)
  obtain ⟨m, hm⟩ := Nat.exists_eq_add_of_le ((Nat.add_le_add_right hturn 1).trans hturns)
  rw [hm, hk, hsettled m, hsettled k]

/-- Where a document is not spelled out, no number of links is enough for it. -/
theorem spelled_eq_none_iff {ways : Nat} (hways : Fintype.card σ ≤ ways) {look : σ} :
    g.spelled view ways look = none ↔ g.Endless view look := by
  refine ⟨fun h turns => ?_, fun h => h _⟩
  by_contra hsome
  obtain ⟨v, hv⟩ := Option.ne_none_iff_exists'.mp hsome
  rcases Nat.le_total turns (g.collections.length * ways + 1) with hle | hle
  · have hv := spell_mono (fun look slot v => follow_mono hle) hv
    cases h.symm.trans hv
  · rw [follow_eq_of_le hways hle] at hv
    cases h.symm.trans hv

end Settled

theorem follow_of_whole {slot : Nat} {v : Value} (h : g.follow .whole turns () slot = some v)
    (look : σ) : g.follow view turns look slot = some (view.seen look v) := by
  induction turns generalizing slot v look with
  | zero => cases h
  | succ turns ih => exact spell_of_whole (fun look slot v hv => ih hv look) h

/-- In a view, what is seen of a document is what is seen of the value that it is loaded as. -/
theorem spelled_of_loaded {ways : Nat} (hways : 0 < ways) {v : Value} (h : g.loaded = .tree v)
    (look : σ) : g.spelled view ways look = some (view.seen look v) := by
  unfold loaded at h
  split at h
  · rename_i w hw
    obtain rfl := Loaded.tree.inj h
    have hle : g.collections.length * 1 + 1 ≤ g.collections.length * ways + 1 :=
      Nat.add_le_add_right (Nat.mul_le_mul_left _ hways) 1
    refine spell_of_whole (fun look slot v hv => ?_) hw
    exact follow_mono hle (follow_of_whole hv look)
  · cases h

theorem eq_of_loaded_cyclic {g' : Graph} (h : g.loaded = .cyclic g') :
    g' = g ∧ g.spelled .whole 1 () = none := by
  unfold loaded at h
  split at h
  · cases h
  · exact ⟨(Loaded.cyclic.inj h).symm, ‹_›⟩

/-- What is seen of a document that has no end is a list or a record. -/
theorem collection_of_spelled (hcyclic : g.spelled .whole 1 () = none) {ways : Nat} {look : σ}
    {v : Value} (h : g.spelled view ways look = some v) :
    (∃ vs, v = .list vs) ∨ ∃ fields, v = .record fields := by
  unfold spelled at hcyclic h
  cases hroot : g.root with
  | leaf w =>
    rw [hroot] at hcyclic
    cases hcyclic
  | list items => exact .inl (exists_list_of_spell (by rwa [hroot] at h))
  | record fields => exact .inr (exists_record_of_spell (by rwa [hroot] at h))
  | link slot => exact collection_of_follow (by rwa [hroot] at h)

end Graph

end ParamForm.Yaml
