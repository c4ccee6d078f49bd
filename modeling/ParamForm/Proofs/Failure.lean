import ParamForm.Failure

/-!
# Computations that may fail

A computation in steps gives a result only if each of its steps does. Where each step gives one
exactly under a condition, so does the computation (`ReturnsIff.bind`).
-/

namespace ParamForm

variable {α β : Type} {first : Except Failure α} {b : β}

theorem exists_ok (h : first.isOk = true) : ∃ a, first = .ok a := by
  cases first with
  | error failure => cases h
  | ok a => exact ⟨a, rfl⟩

theorem exists_ok_of_bind {next : α → Except Failure β} (h : first >>= next = .ok b) :
    ∃ a, first = .ok a ∧ next a = .ok b := by
  cases first with
  | error failure => cases h
  | ok a => exact ⟨a, rfl, h⟩

theorem exists_ok_of_map {f : α → β} (h : first.map f = .ok b) : ∃ a, first = .ok a ∧ f a = b := by
  cases first with
  | error failure => cases h
  | ok a => exact ⟨a, rfl, Except.ok.inj h⟩

/-- A computation that gives a result under a condition, and otherwise has a certain failure. -/
structure ReturnsIff (failure : Failure) (condition : Prop) (first : Except Failure α) :
    Prop where
  ok : condition → ∃ a, first = .ok a
  error : ¬ condition → first = .error failure

namespace ReturnsIff

variable {failure : Failure} {condition other : Prop}

theorem pure (a : α) (h : condition) : ReturnsIff failure condition (.ok a) :=
  ⟨fun _ => ⟨a, rfl⟩, fun hnot => absurd h hnot⟩

theorem congr (h : ReturnsIff failure condition first) (hiff : condition ↔ other) :
    ReturnsIff failure other first :=
  ⟨fun hother => h.ok (hiff.mpr hother), fun hnot => h.error (mt hiff.mp hnot)⟩

theorem bind {next : α → Except Failure β} (h : ReturnsIff failure condition first)
    (hnext : ∀ a, first = .ok a → ReturnsIff failure other (next a)) :
    ReturnsIff failure (condition ∧ other) (first >>= next) := by
  by_cases hcondition : condition
  · obtain ⟨a, rfl⟩ := h.ok hcondition
    exact (hnext a rfl).congr (and_iff_right hcondition).symm
  · rw [h.error hcondition]
    exact ⟨fun hboth => absurd hboth.1 hcondition, fun _ => rfl⟩

theorem map {f : α → β} (h : ReturnsIff failure condition first) :
    ReturnsIff failure condition (first.map f) := by
  constructor
  · intro hcondition
    obtain ⟨a, rfl⟩ := h.ok hcondition
    exact ⟨f a, rfl⟩
  · intro hnot
    rw [h.error hnot]
    rfl

end ReturnsIff

end ParamForm
