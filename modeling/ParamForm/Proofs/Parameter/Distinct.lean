import ParamForm.Proofs.Parameter.Reorder
import ParamForm.Proofs.Parameter.Siblings
import ParamForm.Proofs.Parameter.Winner

/-!
# Distinct keys in rendered trees

The properties of a node have different names, and so the siblings on every level of a derived tree
have distinct keys. Sorting keeps the keys of each level, so the same holds of every tree that is
rendered without overrides (`Rendering.distinctSiblings_base`).
-/

namespace ParamForm

namespace Schema

open Parameter

variable {defaultSort : Number}

/-- The induction follows the properties: what is derived for those below a field is one level. -/
theorem distinctSiblings_children_of_deriveFields {path : List String} {owner : Value}
    {fields : Fields} {ps : List Parameter} {found : List Diagnostic}
    (hwell : Value.WellFormedFields fields)
    (h : deriveFields defaultSort (Key.ofPath path) (requiredNames owner) fields
      = .ok (ps, found)) : ∀ p ∈ ps, DistinctSiblings p.children := by
  induction path, owner, fields using among.induct generalizing ps found with
  | case1 path owner =>
    rw [deriveFields] at h
    obtain ⟨rfl, -⟩ := Prod.mk.inj (Except.ok.inj h)
    exact List.forall_mem_nil _
  | case2 path owner name node rest ihBelow ihRest =>
    obtain ⟨p, foundHere, ps', foundAfter, hp, hps, rfl, -⟩ := deriveFields_cons_eq_ok h
    rw [← Key.ofPath_concat] at hp
    obtain ⟨_, _, _, -, -, hbelow, -⟩ := derive_eq_ok hp
    have hchildren := deriveBelow_eq_ok hbelow
    obtain ⟨hordered, hwellBelow⟩ := ordered_ownFields (wellFormed_childOwner hwell.1)
    have hp : DistinctSiblings p.children := distinctSiblings_iff.mpr
      ⟨nodup_keys_of_deriveFields hordered hchildren, ihBelow hwellBelow hchildren⟩
    exact List.forall_mem_cons.mpr ⟨hp, ihRest hwell.2 hps⟩

theorem distinctSiblings_deriveRoot {schema : Value} {ps : List Parameter}
    {found : List Diagnostic} (hwell : schema.WellFormed)
    (h : deriveRoot defaultSort schema = .ok (ps, found)) : DistinctSiblings ps := by
  rw [deriveRoot_eq] at h
  obtain ⟨hordered, hfields⟩ := ordered_ownFields hwell
  have hroot : deriveFields defaultSort (Key.ofPath []) (requiredNames schema) (ownFields schema)
      = .ok (ps, found) := h
  exact distinctSiblings_iff.mpr
    ⟨nodup_keys_of_deriveFields hordered h, distinctSiblings_children_of_deriveFields hfields hroot⟩

end Schema

namespace Parameter

variable (defaultSort : Number)

theorem distinctSiblings_arrange {ps : List Parameter} (h : DistinctSiblings ps) :
    DistinctSiblings (arrange defaultSort ps) := by
  induction ps using children_induction with
  | step ps ih =>
    obtain ⟨hkeys, hbelow⟩ := distinctSiblings_iff.mp h
    refine distinctSiblings_iff.mpr ⟨(keys_arrange_perm defaultSort ps).nodup_iff.mpr hkeys, ?_⟩
    intro q hq
    obtain ⟨p, hp, number, rfl⟩ := exists_of_mem_arrange defaultSort hq
    have hchildren : ((arrangeBelow defaultSort p).withSort number).children
        = arrange defaultSort p.children := children_arrangeBelow defaultSort p
    rw [hchildren]
    exact (ih p hp).1 (hbelow p hp)

end Parameter

/-- The siblings on each level of a tree without overrides have distinct keys. -/
theorem Rendering.distinctSiblings_base {options : Options} {schema : Value} {base : Rendering}
    (hwell : schema.WellFormed) (h : ofSchema options schema [] = .ok base) :
    Parameter.DistinctSiblings base.parameters := by
  obtain ⟨derived, hderived, hsorted⟩ := exists_derived h
  rw [hsorted]
  exact Parameter.distinctSiblings_arrange _ (Schema.distinctSiblings_deriveRoot hwell hderived)

end ParamForm
