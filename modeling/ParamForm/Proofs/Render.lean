import ParamForm.Proofs.Failure
import ParamForm.Proofs.Parameter.Copyable
import ParamForm.Proofs.Parameter.Patch
import ParamForm.Render

/-!
# Rendering with overrides

The tree with overrides is the tree without, patched, as far as that one can be copied
(`Rendering.ofSchema_eq`).
-/

namespace ParamForm.Rendering

variable {options : Options} {schema : Value} {base : Rendering}

/-- The tree without overrides is the derived one, put in order. -/
theorem exists_derived (h : ofSchema options schema [] = .ok base) :
    ∃ derived, Schema.deriveRoot options.defaultSort schema = .ok (derived, base.diagnostics)
      ∧ base.parameters = Parameter.arrange options.defaultSort derived := by
  obtain ⟨⟨derived, found⟩, hderived, hbase⟩ := exists_ok_of_bind h
  obtain rfl := Except.ok.inj hbase
  exact ⟨derived, hderived, rfl⟩

/-- The tree with overrides is the tree without, patched, as far as that one can be copied. -/
theorem ofSchema_eq (h : ofSchema options schema [] = .ok base) (o : Override)
    (os : List Override) : ofSchema options schema (o :: os)
      = (Parameter.patch base.parameters (o :: os)).map
        fun made => ⟨made.1, base.diagnostics ++ made.2⟩ := by
  obtain ⟨derived, hderived, hsorted⟩ := exists_derived h
  simp only [ofSchema, hderived, bind, Except.bind, List.isEmpty_cons, Bool.false_eq_true,
    if_false, ← hsorted]
  cases Parameter.patch base.parameters (o :: os) with
  | error failure => rfl
  | ok made => rfl

theorem ofSchema_of_copyable (h : ofSchema options schema [] = .ok base)
    (hcopy : Parameter.allCopyable base.parameters = true) (os : List Override) :
    ∃ r, ofSchema options schema os = .ok r ∧ Parameter.allCopyable r.parameters = true := by
  cases os with
  | nil => exact ⟨base, h, hcopy⟩
  | cons o os =>
    rw [ofSchema_eq h, Parameter.patch, if_pos hcopy]
    exact ⟨_, rfl, Parameter.allCopyable_patchList hcopy (o :: os)⟩

/-- A tree that was made with overrides is the one without, patched. -/
theorem parameters_of_ok (h : ofSchema options schema [] = .ok base) {os : List Override}
    {r : Rendering} (hr : ofSchema options schema os = .ok r) :
    r.parameters = (Parameter.patchList base.parameters os).1 := by
  cases os with
  | nil =>
    obtain rfl := Except.ok.inj (h.symm.trans hr)
    rw [Parameter.patchList_nil]
  | cons o os =>
    rw [ofSchema_eq h] at hr
    obtain ⟨made, hmade, rfl⟩ := exists_ok_of_map hr
    rw [Parameter.patch_eq_ok hmade]

end ParamForm.Rendering
