import ParamForm.Proofs.Schema.Key
import ParamForm.Proofs.Value.Content

/-!
# Tests of rules

What a rule finds in a form is nothing, or a value that JSON can write as the form itself
(`Value.fromJson_readValue`). A rule that asks for equality holds exactly if this has the content of
the rule's own value and lists its names in the same order, a rule that asks for the contrary
exactly if not, and membership in a list is equality with an element (`Rule.holds_iff`).
-/

namespace ParamForm

namespace Value

theorem fromJson_follow {v : Value} (h : v = .absent ∨ FromJson v) (names : List String) :
    v.follow names = .absent ∨ FromJson (v.follow names) := by
  induction names generalizing v with
  | nil => exact h
  | cons name names ih =>
    refine ih ?_
    rcases h with rfl | h
    · exact .inl rfl
    · exact h.member name

theorem fromJson_readValue {values : Value} (h : FromJson values) (key : String) :
    values.readValue key = .absent ∨ FromJson (values.readValue key) :=
  fromJson_follow (.inr h) (Key.split key)

end Value

namespace Rule

open Value

variable {rule : Rule} {values : Value}

theorem holds_of_equal (h : rule.operator.getD .equal = .equal) :
    rule.holds values = (values.readValue rule.jsonKey).matchesValue rule.value := by
  simp only [holds, h]

theorem holds_of_notEqual (h : rule.operator = some .notEqual) :
    rule.holds values = !(values.readValue rule.jsonKey).matchesValue rule.value := by
  simp only [holds, h, Option.getD_some]

theorem holds_of_isIn {candidates : List Value} (h : rule.operator = some .isIn)
    (hlist : rule.value = .list candidates) :
    rule.holds values = candidates.any (values.readValue rule.jsonKey).matchesValue := by
  simp only [holds, h, hlist, Option.getD_some]

/-- Equality is that of content, as far as names are listed in the same order. Inequality is its
negation, and what is in a list is equal to an element. -/
theorem holds_iff (hvalues : FromJson values) (hrule : FromJson rule.value) :
    let actual := values.readValue rule.jsonKey
    (rule.operator.getD .equal = .equal →
        (rule.holds values = true
          ↔ SameContent actual rule.value ∧ SameOrder actual rule.value))
      ∧ (rule.operator = some .notEqual →
        (rule.holds values = true
          ↔ ¬ (SameContent actual rule.value ∧ SameOrder actual rule.value)))
      ∧ (rule.operator = some .isIn → ∀ candidates, rule.value = .list candidates →
        (rule.holds values = true
          ↔ ∃ c ∈ candidates, SameContent actual c ∧ SameOrder actual c)) := by
  have hactual := fromJson_readValue hvalues rule.jsonKey
  have hmatches := matchesValue_iff hactual hrule
  refine ⟨fun h => ?_, fun h => ?_, fun h candidates hlist => ?_⟩
  · rw [holds_of_equal h, hmatches]
  · rw [holds_of_notEqual h, ← hmatches, Bool.not_eq_true', Bool.not_eq_true]
  · rw [hlist] at hrule
    rw [holds_of_isIn h hlist, List.any_eq_true]
    exact exists_congr fun c => and_congr_right fun hc => matchesValue_iff hactual (hrule.item hc)

/-- A form and a rule that list the names of one record in different orders: the contents are the
same, and the rule does not hold. -/
theorem holds_iff_reordered :
    let one : Value := .number (.whole 1)
    let found : Value := .record [("x", one), ("y", .list [.null])]
    let expected : Value := .record [("y", .list [.null]), ("x", one)]
    let form : Value := .record [("a", found)]
    let rule : Rule := ⟨"a", none, expected, none⟩
    FromJson form ∧ FromJson rule.value ∧ SameContent (form.readValue rule.jsonKey) rule.value
      ∧ rule.holds form = false := by
  intro one found expected form rule
  have hone : FromJson one :=
    fromJson_of_leaf nofun nofun (Number.representable_whole (by decide +kernel)) trivial
      fun x hx => number.inj hx ▸ rfl
  have hnull : FromJson .null := fromJson_of_leaf nofun nofun trivial trivial nofun
  have hlist : FromJson (.list [.null]) := fromJson_list_iff.mpr (by simpa using hnull)
  have hx : arrayIndex? "x" = none := by decide
  have hy : arrayIndex? "y" = none := by decide
  have hfound : FromJson found := fromJson_record_iff.mpr
    ⟨by simp [Fields.Ordered, Fields.Before, hx, hy], by simp [hone, hlist]⟩
  have hexpected : FromJson expected := fromJson_record_iff.mpr
    ⟨by simp [Fields.Ordered, Fields.Before, hx, hy], by simp [hone, hlist]⟩
  have hform : FromJson form := fromJson_record_iff.mpr
    ⟨List.pairwise_singleton _ _, by simpa using hfound⟩
  have hread : form.readValue rule.jsonKey = found := by
    rw [readValue, Key.split_of_not_mem (by decide)]
    rfl
  have hrule : FromJson rule.value := hexpected
  have hholds := (holds_iff hform hrule).1 rfl
  rw [hread] at hholds ⊢
  refine ⟨hform, hrule, ?_, ?_⟩
  · refine .record (fun name => by simp [or_comm]) fun name v w hv hw => ?_
    simp only [Fields.get?, lookup_cons_eq, List.lookup_nil] at hv hw
    split_ifs at hv hw with hname hname' hname'
    · exact absurd (hname.symm.trans hname') (by decide)
    · obtain ⟨rfl, rfl⟩ := And.intro (Option.some.inj hv) (Option.some.inj hw)
      exact .number rfl
    · obtain ⟨rfl, rfl⟩ := And.intro (Option.some.inj hv) (Option.some.inj hw)
      exact sameContent_of_unsigned hlist rfl
  · refine Bool.eq_false_iff.mpr (mt hholds.mp fun h => ?_)
    exact absurd (h.2 [] _ _ rfl rfl) (by decide)

end Rule

end ParamForm
