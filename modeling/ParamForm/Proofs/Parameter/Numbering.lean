import ParamForm.Proofs.Number.Count
import ParamForm.Proofs.Options
import ParamForm.Proofs.Parameter.Chain
import ParamForm.Proofs.Parameter.Derive
import ParamForm.Proofs.Parameter.Shape
import ParamForm.Proofs.Parameter.Siblings

/-!
# The order that sort numbers tell

Each parameter of a derived tree carries the default sort number, and so each level of a tree that
is rendered without overrides is counted from that default (`Rendering.sorts_level`). The sort
numbers tell the order of the siblings exactly if the numbers of this count are apart
(`Rendering.toldBySort_iff`).
-/

namespace ParamForm

namespace Parameter

/-- Each level of a sorted tree is a level of the tree, sorted. -/
theorem level_arrange (defaultSort : Number) (path : List Nat) (ps : List Parameter) :
    ∃ path', level path (arrange defaultSort ps) = arrange defaultSort (level path' ps) := by
  induction path generalizing ps with
  | nil => exact ⟨[], rfl⟩
  | cons i path ih =>
    rw [level, getElem?_arrange]
    cases hi : (inOrder ps)[i]? with
    | none =>
      refine ⟨[ps.length], ?_⟩
      rw [level, List.getElem?_eq_none le_rfl]
      exact (arrange_nil defaultSort).symm
    | some p =>
      have hp : p ∈ ps := (inOrder_perm ps).mem_iff.mp (List.mem_of_getElem? hi)
      obtain ⟨j, hj⟩ := List.mem_iff_getElem?.mp hp
      obtain ⟨path', hpath'⟩ := ih p.children
      rw [← children_arrangeBelow] at hpath'
      refine ⟨j :: path', ?_⟩
      rw [level, hj]
      exact hpath'

/-- Each parameter of a level ends a chain. -/
theorem exists_chain_of_mem_level {path : List Nat} {ps : List Parameter} {p : Parameter}
    (h : p ∈ level path ps) :
    ∃ positions ancestors, chain? positions ps = some (ancestors ++ [p]) := by
  induction path generalizing ps with
  | nil =>
    obtain ⟨i, hi⟩ := List.mem_iff_getElem?.mp h
    exact ⟨[i], [], chain?_cons_eq_some.mpr ⟨p, [], hi, rfl, rfl⟩⟩
  | cons i path ih =>
    rw [level] at h
    split at h
    · rename_i q hq
      obtain ⟨positions, ancestors, hchain⟩ := ih h
      exact ⟨i :: positions, q :: ancestors, chain?_cons_eq_some.mpr ⟨q, _, hq, hchain, rfl⟩⟩
    · cases h

/-- Siblings that all carry the default are counted from it. -/
theorem sortBase_of_forall_eq {defaultSort : Number} {ps : List Parameter}
    (h : ∀ p ∈ ps, p.info.sort = defaultSort) : sortBase defaultSort ps = defaultSort := by
  have hstart := startsAt_sortBase defaultSort ps
  generalize sortBase defaultSort ps = base at hstart
  cases hstart with
  | least hleast =>
    obtain ⟨-, p, hp, hsort⟩ := hleast.1
    rw [← hsort, h p hp]
  | unset => rfl

/-- Comparing sort numbers tells the order of siblings, and with it that each required one comes
before each that is not. -/
structure ToldBySort (ps : List Parameter) : Prop where
  ascending : ps.Pairwise fun p q => p.info.sort.Less q.info.sort
  requiredBelow : ∀ p ∈ ps, ∀ q ∈ ps, p.required = true → q.required = false →
    p.info.sort.Less q.info.sort

/-- For siblings in order, the numbers only have to ascend. -/
theorem toldBySort_iff_of_inSiblingOrder {ps : List Parameter} (h : InSiblingOrder ps) :
    ToldBySort ps ↔ ps.Pairwise fun p q => p.info.sort.Less q.info.sort := by
  refine ⟨ToldBySort.ascending, fun hascending => ⟨hascending, ?_⟩⟩
  intro p hp q hq hrequired hoptional
  obtain ⟨i, hi, rfl⟩ := List.mem_iff_getElem.mp hp
  obtain ⟨j, hj, rfl⟩ := List.mem_iff_getElem.mp hq
  rcases Nat.lt_trichotomy i j with hij | rfl | hji
  · exact List.pairwise_iff_getElem.mp hascending i j hi hj hij
  · exact absurd (hrequired.symm.trans hoptional) (by decide)
  · have := List.pairwise_iff_getElem.mp h.requiredFirst j i hj hi hji hrequired
    exact absurd (this.symm.trans hoptional) (by decide)

end Parameter

namespace Rendering

open Parameter

variable {options : Options} {schema : Value} {base : Rendering}

/-- Each level of a tree without overrides is sorted from siblings that all carry the default. -/
theorem exists_level (h : ofSchema options schema [] = .ok base) (path : List Nat) :
    ∃ given, level path base.parameters = arrange options.defaultSort given
      ∧ ∀ p ∈ given, p.info.sort = options.defaultSort := by
  obtain ⟨derived, hderived, hsorted⟩ := exists_derived h
  obtain ⟨path', hpath'⟩ := level_arrange options.defaultSort path derived
  refine ⟨level path' derived, hsorted ▸ hpath', fun p hp => ?_⟩
  obtain ⟨positions, ancestors, hchain⟩ := exists_chain_of_mem_level hp
  obtain ⟨_, hshows⟩ := Schema.exists_shows hderived (ancestors.length, p)
    (mem_walk_iff.mpr ⟨positions, ancestors, hchain, rfl⟩)
  exact hshows.sort

/-- Each level of a tree without overrides is counted from the default. -/
theorem sorts_level (h : ofSchema options schema [] = .ok base) (path : List Nat) :
    (level path base.parameters).map (·.info.sort)
      = (List.range (level path base.parameters).length).map options.defaultSort.plus := by
  obtain ⟨given, hlevel, hgiven⟩ := exists_level h path
  rw [hlevel, sorts_arrange, length_arrange, sortBase_of_forall_eq hgiven]

theorem inSiblingOrder_level (h : ofSchema options schema [] = .ok base) (path : List Nat) :
    InSiblingOrder (level path base.parameters) := by
  obtain ⟨given, hlevel, -⟩ := exists_level h path
  rw [hlevel]
  exact (sortedFrom_arrange options.defaultSort given).inOrder

/-- With accepted options, the sort numbers of the siblings on a level tell their order exactly if
the numbers that are counted from the default are apart. -/
theorem toldBySort_iff {fields : Fields} (hwell : Value.WellFormedFields fields)
    (hoptions : Options.resolve fields = .ok options)
    (h : ofSchema options schema [] = .ok base) :
    ∃ n : Nat, options.defaultSort.same (.whole n) = true ∧ ∀ path,
      ToldBySort (level path base.parameters)
        ↔ Number.Apart n (level path base.parameters).length := by
  obtain ⟨n, hsame, hrep⟩ := Options.exists_defaultSort hwell hoptions
  refine ⟨n, hsame, fun path => ?_⟩
  have hsorts := sorts_level h path
  rw [toldBySort_iff_of_inSiblingOrder (inSiblingOrder_level h path),
    ← Number.ascending_iff hsame hrep]
  generalize level path base.parameters = siblings at hsorts
  rw [← List.pairwise_map (f := fun p : Parameter => p.info.sort), hsorts, List.pairwise_map,
    List.pairwise_iff_getElem]
  simp only [List.getElem_range, List.length_range]
  exact ⟨fun h i j hij hj => h i j (hij.trans hj) hj hij, fun h i j _ hj hij => h i j hij hj⟩

/-- Three siblings counted from `2 ^ 53`: the second number is rounded to the first one. -/
theorem toldBySort_iff_large :
    let fields : Fields := [("defaultSort", .number (.whole (2 ^ 53)))]
    let schema : Value := .record [("properties", .record
      [("a", .record [("type", .text "string")]), ("b", .record [("type", .text "string")]),
        ("c", .record [("type", .text "string")])])]
    ∃ options base, Options.resolve fields = .ok options
      ∧ ofSchema options schema [] = .ok base
      ∧ ¬ ToldBySort (level [] base.parameters)
      ∧ (level [] base.parameters).map (·.info.sort)
        = [.whole (2 ^ 53), .whole (2 ^ 53), .whole (2 ^ 53 + 2)] := by
  intro fields schema
  have hwell : Value.WellFormedFields fields :=
    ⟨Number.representable_of_le (le_refl (2 ^ 53)), trivial⟩
  have hoptions : Options.resolve fields = .ok ⟨.whole (2 ^ 53), false⟩ := rfl
  obtain ⟨base, h⟩ : ∃ base, ofSchema ⟨.whole (2 ^ 53), false⟩ schema [] = .ok base :=
    exists_ok (by decide +kernel)
  have hlength : (level [] base.parameters).length = 3 := by
    obtain ⟨derived, hderived, hsorted⟩ := exists_derived h
    have hthree : (Schema.deriveRoot (.whole (2 ^ 53)) schema).toOption.map
        (fun made => made.1.length) = some 3 := by
      decide +kernel
    rw [hderived] at hthree
    rw [level, hsorted, length_arrange]
    exact Option.some.inj hthree
  refine ⟨_, base, hoptions, h, ?_, ?_⟩
  · obtain ⟨n, hn, htold⟩ := toldBySort_iff hwell hoptions h
    have hstart : n = 2 ^ 53 := by
      rcases Number.eq_or_of_same hn with heq | ⟨heq, -⟩
      · exact (Int.natCast_inj.mp (Number.whole.inj heq)).symm
      · cases heq
    rw [htold, hlength, hstart]
    decide
  · rw [sorts_level h, hlength]
    decide +kernel

end Rendering

end ParamForm
