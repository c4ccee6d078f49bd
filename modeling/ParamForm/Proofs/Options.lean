import ParamForm.Options
import ParamForm.Proofs.Number.Integer
import ParamForm.Proofs.Value.JsonData

/-!
# Accepted options

The number that accepted options count siblings from is a nonnegative integer of the format
(`Options.exists_defaultSort`).
-/

namespace ParamForm

namespace Options

/-- What passes the check of the numbering base has the value of a nonnegative integer. -/
theorem exists_same_of_defaultSortIssues {x : Number} (h : defaultSortIssues (.number x) = []) :
    ∃ n : Nat, x.same (.whole n) = true := by
  cases x with
  | whole m =>
    have hm : 0 ≤ m := by
      simpa [defaultSortIssues, Number.isNan, Number.isInteger, Number.isNegative] using h
    exact ⟨m.toNat, by simp [Number.same, Int.toNat_of_nonneg hm]⟩
  | negZero => exact ⟨0, by decide⟩
  | _ => simp [defaultSortIssues, Number.isNan, Number.isInteger] at h

theorem representable_of_getD {fields : Fields} (hwell : Value.WellFormedFields fields)
    {name : String} {x y : Number} (hy : y.Representable)
    (h : (Fields.get? (fields.filter fun f => !f.2.isAbsent) name).getD (.number y) = .number x) :
    x.Representable := by
  cases hget : Fields.get? (fields.filter fun f => !f.2.isAbsent) name with
  | none =>
    rw [hget, Option.getD_none, Value.number.injEq] at h
    exact h ▸ hy
  | some v =>
    rw [hget, Option.getD_some] at h
    have hmem : (name, v) ∈ fields := List.mem_of_mem_filter (Fields.mem_of_get? hget)
    have hv : v.WellFormed := Value.wellFormedFields_iff.mp hwell (name, v) hmem
    rwa [h] at hv

/-- Accepted options count from a nonnegative integer of the format. -/
theorem exists_defaultSort {fields : Fields} {options : Options}
    (hwell : Value.WellFormedFields fields) (h : resolve fields = .ok options) :
    ∃ n : Nat, options.defaultSort.same (.whole n) = true ∧ (Number.whole n).Representable := by
  unfold resolve at h
  simp only at h
  split at h
  · rename_i x b hissues hsort hdebug
    obtain rfl := Except.ok.inj h
    rw [hsort] at hissues
    have hsortIssues := (List.append_eq_nil_iff.mp (List.append_eq_nil_iff.mp hissues).1).1
    obtain ⟨n, hn⟩ := exists_same_of_defaultSortIssues hsortIssues
    have hx := representable_of_getD hwell (Number.representable_whole (by decide)) hsort
    exact ⟨n, hn, Number.representable_of_same hn hx⟩
  · cases h

end Options

end ParamForm
