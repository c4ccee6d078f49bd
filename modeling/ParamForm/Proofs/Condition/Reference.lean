import ParamForm.Condition.Check
import ParamForm.Proofs.Parameter.Keys
import ParamForm.Proofs.Parameter.Shape

/-!
# Rules refer to parameters

Overrides pass the check of conditions only if every rule anywhere among them names a parameter
other than its own (`Override.rulesHave_of_conditionIssues`). Patching takes the rules of a
parameter from overrides of its key and keeps the keys of the tree, so what was checked for the
overrides holds in the patched tree (`Parameter.rules_refer`).
-/

namespace ParamForm

namespace Override

/-- Whether an override stands in a list, or at any depth below one that does. -/
inductive Within : List Override → Override → Prop
  | here {os : List Override} {o : Override} : o ∈ os → Within os o
  | nested {os subs : List Override} {o target : Override} :
    o ∈ os → o.subParameters = some subs → Within subs target → Within os target

theorem Within.mono {os more : List Override} {o : Override} (hsub : os ⊆ more)
    (h : Within os o) : Within more o := by
  cases h with
  | here hmem => exact .here (hsub hmem)
  | nested hmem hsubs h => exact .nested (hsub hmem) hsubs h

/-- Whether every rule of every override in a tree of them has a property, for the key of the
override that it belongs to. -/
def RulesHave (R : String → Rule → Prop) (os : List Override) : Prop :=
  ∀ o, Within os o → ∀ rule ∈ o.conditions.getD [], R o.jsonKey rule

variable {ps : List Parameter} {os : List Override}

theorem ruleFault?_eq_none_iff {owner : String} {rule : Rule} :
    ruleFault? ps owner rule = none
      ↔ rule.jsonKey ≠ owner ∧ (Parameter.find? rule.jsonKey ps).isSome = true := by
  unfold ruleFault?
  split_ifs with howner hfound
  · simp [howner]
  · simp [Option.isNone_iff_eq_none.mp hfound]
  · simp [howner, Option.isSome_iff_ne_none, ← Option.isNone_iff_eq_none, hfound]

theorem ruleFault?_of_ruleIssues {owner : String} {rules : List Rule} {i : Nat}
    (h : ruleIssues ps owner i rules = []) : ∀ rule ∈ rules, ruleFault? ps owner rule = none := by
  induction rules generalizing i with
  | nil => nofun
  | cons rule rules ih =>
    rw [ruleIssues] at h
    cases hfault : ruleFault? ps owner rule with
    | some message => simp [hfault] at h
    | none =>
      simp only [hfault] at h
      exact List.forall_mem_cons.mpr ⟨hfault, ih h⟩

theorem issuesOf_of_conditionIssues {i : Nat} (h : conditionIssues ps i os = []) :
    ∀ o ∈ os, issuesOf ps o = [] := by
  induction os generalizing i with
  | nil => nofun
  | cons o os ih =>
    rw [conditionIssues, List.append_eq_nil_iff, List.map_eq_nil_iff] at h
    exact List.forall_mem_cons.mpr ⟨h.1, ih h.2⟩

theorem issuesOf_eq (o : Override) : issuesOf ps o
    = ruleIssues ps o.jsonKey 0 (o.conditions.getD []) ++ issuesBelow ps o.subParameters := by
  cases o
  rw [issuesOf]

/-- Where the check finds nothing, every rule names a parameter of the tree and not its own. -/
theorem rulesHave_of_conditionIssues {i : Nat} (h : conditionIssues ps i os = []) :
    RulesHave (fun owner rule =>
      rule.jsonKey ≠ owner ∧ (Parameter.find? rule.jsonKey ps).isSome = true) os := by
  intro target hwithin
  induction hwithin generalizing i with
  | @here os o hmem =>
    have hissues := issuesOf_of_conditionIssues h o hmem
    rw [issuesOf_eq, List.append_eq_nil_iff] at hissues
    exact fun rule hrule =>
      ruleFault?_eq_none_iff.mp (ruleFault?_of_ruleIssues hissues.1 rule hrule)
  | nested hmem hsubs _ ih =>
    have hissues := issuesOf_of_conditionIssues h _ hmem
    rw [issuesOf_eq, List.append_eq_nil_iff, hsubs, issuesBelow, List.map_eq_nil_iff] at hissues
    exact ih hissues.2

theorem conditionIssues_of_check (h : checkConditions os ps = .ok ()) :
    conditionIssues ps 0 os = [] := by
  unfold checkConditions at h
  cases hissues : conditionIssues ps 0 os with
  | nil => rfl
  | cons issue issues => simp [hissues] at h

end Override

namespace Parameter

open Override

/-- Whether every rule of every visited parameter has a property, for the key of the parameter. -/
def RulesHave {α : Type} (R : String → Rule → Prop) (visited : List (α × Parameter)) : Prop :=
  ∀ visit ∈ visited, ∀ rule ∈ visit.2.info.conditions, R visit.2.jsonKey rule

section Patched

variable {α : Type} (deeper : α → α) {R : String → Rule → Prop}

theorem rulesHave_cons {visit : α × Parameter} {visited : List (α × Parameter)} :
    RulesHave R (visit :: visited)
      ↔ (∀ rule ∈ visit.2.info.conditions, R visit.2.jsonKey rule) ∧ RulesHave R visited :=
  List.forall_mem_cons

theorem rulesHave_append {visited after : List (α × Parameter)} :
    RulesHave R (visited ++ after) ↔ RulesHave R visited ∧ RulesHave R after :=
  List.forall_mem_append

theorem rule_of_patched {info : ParameterInfo} {o : Override} (hkey : o.jsonKey = info.jsonKey)
    (hinfo : ∀ rule ∈ info.conditions, R info.jsonKey rule)
    (ho : ∀ rule ∈ o.conditions.getD [], R o.jsonKey rule) :
    ∀ rule ∈ (info.patched o).conditions, R info.jsonKey rule := by
  intro rule hrule
  cases hconditions : o.conditions with
  | none =>
    rw [ParameterInfo.patched, hconditions] at hrule
    exact hinfo rule hrule
  | some rules =>
    rw [ParameterInfo.patched, hconditions] at hrule
    rw [hconditions] at ho
    exact hkey ▸ ho rule hrule

mutual

theorem rulesHave_patchOne :
    ∀ (depth : α) (p : Parameter) (o : Override), o.jsonKey = p.jsonKey →
      RulesHave R (walkOneBy deeper depth p) → Override.RulesHave R [o] →
        RulesHave R (walkOneBy deeper depth (patchOne p o).1)
  | depth, ⟨info, subs, extra⟩, o, hkey, hp, ho => by
    rw [walkOneBy, rulesHave_cons] at hp
    rw [patchOne, walkOneBy, rulesHave_cons]
    refine ⟨rule_of_patched hkey hp.1 (ho o (.here List.mem_cons_self)), ?_⟩
    exact rulesHave_patchSubs (deeper depth) info.jsonKey subs o.subParameters hp.2
      fun os hos target htarget => ho target (.nested List.mem_cons_self hos htarget)

theorem rulesHave_patchSubs :
    ∀ (depth : α) (key : String) (subs : Option (List Parameter)) (os? : Option (List Override)),
      RulesHave R (walkSubsBy deeper depth subs) → (∀ os ∈ os?, Override.RulesHave R os) →
        RulesHave R (walkSubsBy deeper depth (patchSubs key subs os?).1)
  | _, _, subs, none, hsubs, _ => by
    rw [patchSubs]
    exact hsubs
  | _, _, none, some os, hsubs, _ => by
    rw [patchSubs]
    · exact hsubs
    · simp
  | _, _, some [], some os, hsubs, _ => by
    rw [patchSubs]
    · exact hsubs
    · simp
  | depth, _, some (p :: ps), some os, hsubs, hos => by
    rw [walkSubsBy] at hsubs
    rw [patchSubs, walkSubsBy]
    exact rulesHave_patchEach depth (p :: ps) (winners os) hsubs
      fun o ho => hos os rfl o (ho.mono (winners_subset os))

theorem rulesHave_patchEach :
    ∀ (depth : α) (ps : List Parameter) (os : List Override),
      RulesHave R (walkBy deeper depth ps) → Override.RulesHave R os →
        RulesHave R (walkBy deeper depth (patchEach ps os).1)
  | _, [], _, hps, _ => by
    rw [patchEach]
    exact hps
  | depth, p :: ps, os, hps, hos => by
    rw [walkBy, rulesHave_append] at hps
    rw [patchEach_cons_fst, walkBy, rulesHave_append]
    constructor
    · cases ho : os.find? (·.jsonKey = p.jsonKey) with
      | none => exact hps.1
      | some o =>
        have hkey : o.jsonKey = p.jsonKey := by simpa using List.find?_some ho
        have hmem : [o] ⊆ os := List.cons_subset.mpr
          ⟨List.mem_of_find?_eq_some ho, List.nil_subset os⟩
        exact rulesHave_patchOne depth p o hkey hps.1 fun target h => hos target (h.mono hmem)
    · have hsub : os.filter (·.jsonKey ≠ p.jsonKey) ⊆ os := List.filter_subset_self os
      exact rulesHave_patchEach depth ps _ hps.2 fun target h => hos target (h.mono hsub)

end

end Patched

/-- A tree without overrides has no rules. -/
theorem conditions_of_base {options : Options} {schema : Value} {base : Rendering}
    (h : Rendering.ofSchema options schema [] = .ok base) :
    ∀ visit ∈ walk base.parameters, visit.2.info.conditions = [] := by
  obtain ⟨derived, hderived, hsorted⟩ := Rendering.exists_derived h
  intro visit hvisit
  have hshown : (visit.1, visit.2.info.unsorted) ∈ shown (walk base.parameters) :=
    List.mem_map_of_mem hvisit
  rw [hsorted, (shown_walk_arrange options.defaultSort derived).mem_iff] at hshown
  obtain ⟨source, hsource, heq⟩ := List.mem_map.mp hshown
  have hinfo : source.2.info.conditions = visit.2.info.conditions :=
    congrArg (fun pair => pair.2.conditions) heq
  obtain ⟨_, hshows⟩ := Schema.exists_shows hderived source hsource
  exact hinfo.symm.trans hshows.conditions

theorem exists_find? {key : String} {ps : List Parameter} (h : (find? key ps).isSome = true) :
    ∃ target, find? key ps = some target ∧ target.jsonKey = key := by
  obtain ⟨target, htarget⟩ := Option.isSome_iff_exists.mp h
  refine ⟨target, htarget, ?_⟩
  rw [find?_eq_firstOf_walkBy (· + 1) key 0 ps, firstOf] at htarget
  simpa using List.find?_some htarget

/-- Where the overrides pass the check of conditions, every rule in the tree with them names a
parameter that is found in that tree, and not the parameter that it belongs to. -/
theorem rules_refer {options : Options} {schema : Value} {os : List Override}
    {base r : Rendering} (hbase : Rendering.ofSchema options schema [] = .ok base)
    (hcheck : checkConditions os base.parameters = .ok ())
    (hr : Rendering.ofSchema options schema os = .ok r) :
    ∀ visit ∈ walk r.parameters, ∀ rule ∈ visit.2.info.conditions,
      (∃ target, find? rule.jsonKey r.parameters = some target
          ∧ target.jsonKey = rule.jsonKey)
        ∧ rule.jsonKey ≠ visit.2.jsonKey := by
  have hos := rulesHave_of_conditionIssues (conditionIssues_of_check hcheck)
  have hparameters := Rendering.parameters_of_ok hbase hr
  have hnone : RulesHave (fun owner rule => rule.jsonKey ≠ owner
      ∧ (find? rule.jsonKey base.parameters).isSome = true) (walk base.parameters) := by
    intro visit hvisit rule hrule
    rw [conditions_of_base hbase visit hvisit] at hrule
    cases hrule
  have hrules := rulesHave_patchEach (· + 1) 0 base.parameters (winners os) hnone
    fun o ho => hos o (ho.mono (winners_subset os))
  intro visit hvisit rule hrule
  rw [hparameters] at hvisit ⊢
  obtain ⟨hother, hfound⟩ := hrules visit hvisit rule hrule
  rw [← isSome_find?_of_outline (outline_walk_patchList base.parameters os)] at hfound
  exact ⟨exists_find? hfound, hother⟩

/-- Rules in two overrides of one key, of which the second counts, and in one below it. -/
theorem rules_refer_repeated :
    let leaf : Value := .record [("c", .record [("type", .text "string")])]
    let schema : Value := .record [("properties", .record [("a", .record
      [("properties", .record [("b", .record [("properties", leaf)])])])])]
    let rule (key : String) : Rule := ⟨key, none, .bool true, none⟩
    let below : List Override := [{ jsonKey := "a.b", conditions := some [rule "a.b.c", rule "a"] }]
    let os : List Override :=
      [{ jsonKey := "a", conditions := some [rule "a.b.c"] },
        { jsonKey := "a", conditions := some [rule "a.b"], subParameters := some below }]
    ∃ base r, Rendering.ofSchema .defaults schema [] = .ok base
      ∧ checkConditions os base.parameters = .ok ()
      ∧ Rendering.ofSchema .defaults schema os = .ok r
      ∧ (∀ visit ∈ walk r.parameters, ∀ rule ∈ visit.2.info.conditions,
        (∃ target, find? rule.jsonKey r.parameters = some target
            ∧ target.jsonKey = rule.jsonKey)
          ∧ rule.jsonKey ≠ visit.2.jsonKey)
      ∧ (walk r.parameters).map (fun visit => (visit.2.jsonKey,
          visit.2.info.conditions.map (·.jsonKey)))
        = [("a", ["a.b"]), ("a.b", ["a.b.c", "a"]), ("a.b.c", [])] := by
  intro leaf schema rule below os
  obtain ⟨base, hbase⟩ : ∃ base, Rendering.ofSchema .defaults schema [] = .ok base :=
    exists_ok (by decide +kernel)
  obtain ⟨r, hr⟩ : ∃ r, Rendering.ofSchema .defaults schema os = .ok r :=
    exists_ok (by decide +kernel)
  have hcheck : checkConditions os base.parameters = .ok () := by
    have hok : (Rendering.ofSchema .defaults schema []).toOption.map
        (fun base => (checkConditions os base.parameters).isOk) = some true := by
      decide +kernel
    rw [hbase] at hok
    obtain ⟨_, hunit⟩ := exists_ok (Option.some.inj hok)
    exact hunit
  have hwalk : (Rendering.ofSchema .defaults schema os).toOption.map
      (fun r => (walk r.parameters).map (fun visit => (visit.2.jsonKey,
        visit.2.info.conditions.map (·.jsonKey))))
      = some [("a", ["a.b"]), ("a.b", ["a.b.c", "a"]), ("a.b.c", [])] := by
    decide +kernel
  rw [hr] at hwalk
  exact ⟨base, r, hbase, hcheck, hr, rules_refer hbase hcheck hr, Option.some.inj hwalk⟩

end Parameter

end ParamForm
