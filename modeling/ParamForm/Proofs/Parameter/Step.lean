import ParamForm.Proofs.Parameter.Derive
import ParamForm.Proofs.Schema.Node

/-!
# Derivations step by step

What a node gives is made of what the properties below it give, one after another
(`Schema.MadeEach`), and of what the schema of its further keys gives (`Schema.MadeFurther`). So
what holds of a node's parameter and diagnostics whenever it holds of these (`Schema.HoldsByStep`)
holds for each node that has a parameter (`Schema.one_derive`).
-/

namespace ParamForm.Schema

open Value

/-- Whether properties, one after another, give parameters and diagnostics as `One` says. -/
inductive MadeEach (One : Value → Parameter → List Diagnostic → Prop) :
    Fields → List Parameter → List Diagnostic → Prop
  | nil : MadeEach One [] [] []
  | cons {f : String × Value} {p : Parameter} {found foundAfter : List Diagnostic}
    {fields : Fields} {ps : List Parameter} :
    One f.2 p found → MadeEach One fields ps foundAfter →
      MadeEach One (f :: fields) (p :: ps) (found ++ foundAfter)

/-- Whether the schema of further keys, if there is one, gives a parameter and diagnostics as `One`
says. -/
inductive MadeFurther (One : Value → Parameter → List Diagnostic → Prop) :
    Option Value → Option Parameter → List Diagnostic → Prop
  | none : MadeFurther One none none []
  | some {node : Value} {p : Parameter} {found : List Diagnostic} :
    One node p found → MadeFurther One (some node) (some p) found

theorem MadeFurther.exists_eq_some {One : Value → Parameter → List Diagnostic → Prop}
    {further : Option Value} {p : Parameter} {found : List Diagnostic}
    (h : MadeFurther One further (Option.some p) found) :
    ∃ node, further = Option.some node ∧ One node p found := by
  cases h with
  | some hone => exact ⟨_, rfl, hone⟩

/-- Whether `One` holds of what a node gives as soon as it holds of what is below the node and of
its further keys. -/
def HoldsByStep (defaultSort : Number) (One : Value → Parameter → List Diagnostic → Prop) : Prop :=
  ∀ {name key : String} {node : Value} {required : Bool} {p : Parameter}
    {foundHere foundBelow foundFurther : List Diagnostic},
    info defaultSort name key node required = .ok p.info →
      findings (Kind.ofNode node) key node = .ok foundHere →
      deriveBelow defaultSort key node = .ok (p.subParameters, foundBelow) →
      deriveFurther defaultSort name key node = .ok (p.additionalParameter, foundFurther) →
      MadeEach One (ownFields (childOwner node)) p.children foundBelow →
      MadeFurther One (furtherKeys? (Kind.ofNode node) node) p.additionalParameter foundFurther →
        One node p (foundHere ++ foundBelow ++ foundFurther)

section Steps

variable {defaultSort : Number} {One : Value → Parameter → List Diagnostic → Prop}

theorem madeEach_deriveFields {parent : String} {requiredNames : List String} {fields : Fields}
    {ps : List Parameter} {found : List Diagnostic}
    (hfields : ∀ f ∈ fields, ∀ name key required p found,
      derive defaultSort name key f.2 required = .ok (p, found) → One f.2 p found)
    (h : deriveFields defaultSort parent requiredNames fields = .ok (ps, found)) :
    MadeEach One fields ps found := by
  induction fields generalizing ps found with
  | nil =>
    rw [deriveFields] at h
    obtain ⟨rfl, rfl⟩ := Prod.mk.inj (Except.ok.inj h)
    exact .nil
  | cons f fields ih =>
    rw [List.forall_mem_cons] at hfields
    obtain ⟨p, foundHere, ps', foundAfter, hp, hps, rfl, rfl⟩ := deriveFields_cons_eq_ok h
    exact .cons (hfields.1 _ _ _ _ _ hp) (ih hfields.2 hps)

/-- The induction is on the weight of the node, which is more than that of each node below it and
of the schema of its further keys. -/
theorem one_derive (hstep : HoldsByStep defaultSort One) (node : Value) :
    ∀ name key required p found, derive defaultSort name key node required = .ok (p, found) →
      One node p found := by
  intro name key required p found h
  obtain ⟨foundHere, foundBelow, foundFurther, hinfo, hfound, hbelow, hfurther, rfl⟩ :=
    derive_eq_ok h
  have heach : MadeEach One (ownFields (childOwner node)) p.children foundBelow :=
    madeEach_deriveFields (fun f hf =>
      have := weight_of_mem_childOwner hf
      one_derive hstep f.2) (deriveBelow_eq_ok hbelow)
  have hextra : MadeFurther One (furtherKeys? (Kind.ofNode node) node) p.additionalParameter
      foundFurther := by
    rcases deriveFurther_eq_ok hfurther with
      ⟨hkeys, hnone, rfl⟩ | ⟨further, v, hkeys, hmade, hsome⟩
    · rw [hkeys, hnone]
      exact .none
    · have := weight_furtherKeys hkeys
      rw [hkeys, hsome]
      exact .some (one_derive hstep further _ _ _ _ _ hmade)
  exact hstep hinfo hfound hbelow hfurther heach hextra
termination_by weight node

/-- What holds by step holds of each property of the root. -/
theorem madeEach_deriveRoot (hstep : HoldsByStep defaultSort One) {schema : Value}
    {ps : List Parameter} {found : List Diagnostic}
    (h : deriveRoot defaultSort schema = .ok (ps, found)) :
    MadeEach One (ownFields schema) ps found := by
  rw [deriveRoot_eq] at h
  exact madeEach_deriveFields (fun f _ => one_derive hstep f.2) h

end Steps

end ParamForm.Schema
