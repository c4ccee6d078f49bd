import ParamForm.Proofs.Condition.Reference
import ParamForm.Proofs.Override.Shape
import ParamForm.Proofs.Parameter.Account
import ParamForm.Proofs.Value.Place

/-!
# What the check of conditions reports

Every rule of a tree of overrides stands at a site (`Override.RuleSite`): its override is found by
positions from the top down, and the rule by its index there. The check goes over the rules in the
order of their sites (`Override.conditionIssues_eq`), and its issues are about the faulty ones among
them, each about one of these, at the path where the key of the rule is written
(`Override.checkConditions_faulty`).
-/

namespace ParamForm.Override

open Value Parameter

/-- Where a rule stands in a tree of overrides: the positions of the overrides above its own, the
position of its own below these, and its index among the rules there. -/
structure RuleSite where
  above : List Nat
  entry : Nat
  index : Nat
  deriving DecidableEq

namespace RuleSite

/-- The positions of the overrides down to the one that has the rule. -/
def positions (site : RuleSite) : List Nat :=
  site.above ++ [site.entry]

/-- The path of the override of a rule. -/
def entryPath (site : RuleSite) : List Step :=
  (site.above.flatMap fun i => [.index i, .field "subParameters"]) ++ [.index site.entry]

/-- The path of the key of a rule. -/
def keyPath (site : RuleSite) : List Step :=
  site.entryPath ++ [.field "conditions", .index site.index, .field "jsonKey"]

/-- The order from the top down: the rules of an override come before those of the overrides below
it, and these before the rules of the overrides after it. -/
def Before (site other : RuleSite) : Prop :=
  List.Lex (· < ·) site.positions other.positions
    ∨ site.positions = other.positions ∧ site.index < other.index

/-- A site, seen from the list of the override that it is below. -/
def below (i : Nat) (site : RuleSite) : RuleSite :=
  { site with above := i :: site.above }

theorem positions_below (i : Nat) (site : RuleSite) :
    (site.below i).positions = i :: site.positions := rfl

theorem keyPath_below (i : Nat) (site : RuleSite) :
    (site.below i).keyPath = .index i :: .field "subParameters" :: site.keyPath := rfl

theorem Before.below {site other : RuleSite} (h : site.Before other) (i : Nat) :
    (site.below i).Before (other.below i) := by
  rcases h with hlex | ⟨hpositions, hindex⟩
  · exact .inl (.cons hlex)
  · exact .inr ⟨congrArg (i :: ·) hpositions, hindex⟩

/-- An override's own rules come before those below it. -/
theorem before_below (i k : Nat) (site : RuleSite) : Before ⟨[], i, k⟩ (site.below i) := by
  refine .inl (.cons ?_)
  obtain ⟨_ | _, _, _⟩ := site
  · exact .nil
  · exact .nil

theorem Before.ne {site other : RuleSite} (h : site.Before other) : site ≠ other := by
  rintro rfl
  rcases h with hlex | ⟨-, hindex⟩
  · exact List.lt_irrefl _ hlex
  · exact Nat.lt_irrefl _ hindex

/-- No two rules have their keys at one path. -/
theorem keyPath_injective : Function.Injective keyPath := by
  rintro ⟨above, i, k⟩ ⟨above', i', k'⟩ h
  induction above generalizing above' with
  | nil =>
    cases above' with
    | nil => simpa [keyPath, entryPath] using h
    | cons => simp [keyPath, entryPath] at h
  | cons j above ih =>
    cases above' with
    | nil => simp [keyPath, entryPath] at h
    | cons j' above' =>
      change keyPath (below j ⟨above, i, k⟩) = keyPath (below j' ⟨above', i', k'⟩) at h
      rw [keyPath_below, keyPath_below, List.cons.injEq, List.cons.injEq] at h
      obtain ⟨hindex, -, hrest⟩ := h
      obtain rfl := Step.index.inj hindex
      exact congrArg (below j) (ih _ hrest)

end RuleSite

/-- Whether a rule of an override stands at a site. -/
def RuleAt (os : List Override) (site : RuleSite) (o : Override) (rule : Rule) : Prop :=
  overrideAt? site.positions os = some o ∧ (o.conditions.getD [])[site.index]? = some rule

/-- Whether the rule at a site names the parameter that it belongs to, or none of the tree. -/
def FaultyAt (ps : List Parameter) (os : List Override) (site : RuleSite) : Prop :=
  ∃ o rule, RuleAt os site o rule ∧ (rule.jsonKey = o.jsonKey ∨ find? rule.jsonKey ps = none)

/-- Whether an issue is about the rule at a site: it says what is wrong with the rule, and its path
leads through the overrides, as they are written, to the key of the rule. -/
def ReportedAt (ps : List Parameter) (os : List Override) (site : RuleSite) (issue : Issue) :
    Prop :=
  ∃ o rule, RuleAt os site o rule ∧ ruleFault? ps o.jsonKey rule = some issue.message
    ∧ issue.path = site.keyPath
    ∧ (Value.list (toValues os)).at? issue.path = some (.text rule.jsonKey)

/-- The overrides below an override. -/
def subs (o : Override) : List Override :=
  o.subParameters.getD []

theorem sizeOf_subs {os : List Override} {o : Override} (h : o ∈ os) :
    sizeOf o.subs < sizeOf os := by
  have hmem := List.sizeOf_lt_of_mem h
  obtain ⟨_, _, _, _, _, _, _, below, _, _, _, _⟩ := o
  cases below <;> simp only [subs, Option.getD, Override.mk.sizeOf_spec, Option.some.sizeOf_spec,
    List.nil.sizeOf_spec] at hmem ⊢ <;> omega

/-- What holds of overrides whenever it holds of those just below each of them holds of all. -/
theorem subs_induction {motive : List Override → Prop}
    (step : ∀ os, (∀ o ∈ os, motive o.subs) → motive os) (os : List Override) : motive os :=
  step os fun o _h => subs_induction step o.subs
termination_by sizeOf os
decreasing_by exact sizeOf_subs _h

/-- A rule with the site where it stands, and the key of its override. -/
structure PlacedRule where
  site : RuleSite
  owner : String
  rule : Rule

/-- A placed rule, seen from the list of the override that it is below. -/
def PlacedRule.below (i : Nat) (p : PlacedRule) : PlacedRule :=
  { p with site := p.site.below i }

mutual

/-- The rules of overrides, counted from `i`, and of the overrides below them. -/
def placedRules (i : Nat) : List Override → List PlacedRule
  | [] => []
  | o :: os => placedOf i o ++ placedRules (i + 1) os

/-- The rules of the override at position `i`: its own, then those below it. -/
def placedOf (i : Nat) : Override → List PlacedRule
  | ⟨key, _, _, _, _, conditions, _, subs, _, _, _, _⟩ =>
    ((conditions.getD []).zipIdx.map fun e => ⟨⟨[], i, e.2⟩, key, e.1⟩)
      ++ (placedBelow subs).map (PlacedRule.below i)

/-- The rules of the overrides below one, none where it has no list of them. -/
def placedBelow : Option (List Override) → List PlacedRule
  | none => []
  | some os => placedRules 0 os

end

theorem placedRules_eq (i : Nat) (os : List Override) :
    placedRules i os = (os.zipIdx i).flatMap fun e => placedOf e.2 e.1 := by
  induction os generalizing i with
  | nil => rw [placedRules, List.zipIdx_nil, List.flatMap_nil]
  | cons o os ih => rw [placedRules, ih, List.zipIdx_cons, List.flatMap_cons]

theorem placedOf_eq (i : Nat) (o : Override) :
    placedOf i o = ((o.conditions.getD []).zipIdx.map fun e => ⟨⟨[], i, e.2⟩, o.jsonKey, e.1⟩)
      ++ (placedRules 0 o.subs).map (PlacedRule.below i) := by
  obtain ⟨_, _, _, _, _, _, _, below, _, _, _, _⟩ := o
  rw [placedOf]
  cases below with
  | none => rw [placedBelow, subs, Option.getD_none, placedRules]
  | some os => rw [placedBelow, subs, Option.getD_some]

variable {ps : List Parameter} {os : List Override} {o : Override} {site : RuleSite} {rule : Rule}

theorem mem_placedRules {p : PlacedRule} :
    p ∈ placedRules 0 os ↔ ∃ i o, os[i]? = some o ∧ p ∈ placedOf i o := by
  rw [placedRules_eq, List.mem_flatMap]
  constructor
  · rintro ⟨⟨o, i⟩, he, hp⟩
    exact ⟨i, o, List.mem_zipIdx_iff_getElem?.mp he, hp⟩
  · rintro ⟨i, o, ho, hp⟩
    exact ⟨(o, i), List.mem_zipIdx_iff_getElem?.mpr ho, hp⟩

theorem mem_placedOf {i : Nat} {p : PlacedRule} :
    p ∈ placedOf i o ↔
      (∃ k rule, (o.conditions.getD [])[k]? = some rule ∧ ⟨⟨[], i, k⟩, o.jsonKey, rule⟩ = p)
        ∨ ∃ q ∈ placedRules 0 o.subs, q.below i = p := by
  rw [placedOf_eq, List.mem_append, List.mem_map, List.mem_map]
  constructor
  · rintro (⟨⟨rule, k⟩, he, rfl⟩ | hbelow)
    · exact .inl ⟨k, rule, List.mem_zipIdx_iff_getElem?.mp he, rfl⟩
    · exact .inr hbelow
  · rintro (⟨k, rule, hrule, rfl⟩ | hbelow)
    · exact .inl ⟨(rule, k), List.mem_zipIdx_iff_getElem?.mpr hrule, rfl⟩
    · exact .inr hbelow

theorem positions_of_mem {i : Nat} {p : PlacedRule} (h : p ∈ placedOf i o) :
    ∃ rest, p.site.positions = i :: rest := by
  rcases mem_placedOf.mp h with ⟨k, rule, -, rfl⟩ | ⟨q, -, rfl⟩
  · exact ⟨[], rfl⟩
  · exact ⟨_, q.site.positions_below i⟩

theorem overrideAt?_cons (i : Nat) (site : RuleSite) (os : List Override) :
    overrideAt? (site.below i).positions os
      = os[i]?.bind fun o => overrideAt? site.positions o.subs := by
  rw [RuleSite.positions_below]
  obtain ⟨_ | _, _, _⟩ := site
  · rfl
  · rfl

/-- The rules of a tree are those that stand at the sites. A rule of an override of the list itself
is the one that has no override above its own. -/
theorem mem_placedRules_iff {p : PlacedRule} :
    p ∈ placedRules 0 os ↔ ∃ o, RuleAt os p.site o p.rule ∧ p.owner = o.jsonKey := by
  induction os using subs_induction generalizing p with
  | step os ih =>
    obtain ⟨⟨above, i, k⟩, owner, rule⟩ := p
    rw [mem_placedRules]
    cases above with
    | nil =>
      constructor
      · rintro ⟨j, o, ho, hp⟩
        rcases mem_placedOf.mp hp with ⟨_, _, hrule, heq⟩ | ⟨q, -, heq⟩
        · cases heq
          exact ⟨o, ⟨ho, hrule⟩, rfl⟩
        · cases heq
      · rintro ⟨o, ⟨ho, hrule⟩, rfl⟩
        exact ⟨i, o, ho, mem_placedOf.mpr (.inl ⟨k, rule, hrule, rfl⟩)⟩
    | cons j above =>
      have hsite : (⟨j :: above, i, k⟩ : RuleSite) = RuleSite.below j ⟨above, i, k⟩ := rfl
      rw [hsite]
      constructor
      · rintro ⟨j', o, ho, hp⟩
        rcases mem_placedOf.mp hp with ⟨_, _, -, heq⟩ | ⟨q, hq, heq⟩
        · cases heq
        · cases heq
          obtain ⟨target, ⟨htarget, hrule⟩, howner⟩ := (ih o (List.mem_of_getElem? ho)).mp hq
          refine ⟨target, ⟨?_, hrule⟩, howner⟩
          rw [overrideAt?_cons, ho]
          exact htarget
      · rintro ⟨target, ⟨htarget, hrule⟩, howner⟩
        rw [overrideAt?_cons, Option.bind_eq_some_iff] at htarget
        obtain ⟨o, ho, htarget⟩ := htarget
        have hq := (ih o (List.mem_of_getElem? ho) (p := ⟨⟨above, i, k⟩, owner, rule⟩)).mpr
          ⟨target, ⟨htarget, hrule⟩, howner⟩
        exact ⟨j, o, ho, mem_placedOf.mpr (.inr ⟨_, hq, rfl⟩)⟩

theorem pairwise_zipIdx {α : Type} (as : List α) (n : Nat) :
    (as.zipIdx n).Pairwise fun e f => e.2 < f.2 := by
  rw [← List.pairwise_map (f := Prod.snd) (R := (· < ·)), List.zipIdx_map_snd]
  exact List.pairwise_lt_range'

/-- The rules of a tree come in the order of their sites. -/
theorem placedRules_pairwise (os : List Override) :
    (placedRules 0 os).Pairwise fun p q => p.site.Before q.site := by
  induction os using subs_induction with
  | step os ih =>
    rw [placedRules_eq, List.pairwise_flatMap]
    constructor
    · rintro ⟨o, i⟩ he
      rw [placedOf_eq, List.pairwise_append, List.pairwise_map, List.pairwise_map]
      refine ⟨?_, ?_, ?_⟩
      · exact (pairwise_zipIdx _ 0).imp fun hlt => .inr ⟨rfl, hlt⟩
      · have ho := List.mem_of_getElem? (List.mem_zipIdx_iff_getElem?.mp he)
        exact (ih o ho).imp fun hbefore => hbefore.below i
      · intro p hp q hq
        obtain ⟨⟨rule, k⟩, -, rfl⟩ := List.mem_map.mp hp
        obtain ⟨q, -, rfl⟩ := List.mem_map.mp hq
        exact q.site.before_below i k
    · refine (pairwise_zipIdx os 0).imp fun {e f} hlt p hp q hq => .inl ?_
      obtain ⟨rest, hp⟩ := positions_of_mem hp
      obtain ⟨more, hq⟩ := positions_of_mem hq
      rw [hp, hq]
      exact .rel hlt

/-- The issue about a rule, if there is one. -/
def PlacedRule.issue? (ps : List Parameter) (p : PlacedRule) : Option Issue :=
  (ruleFault? ps p.owner p.rule).map (Issue.mk p.site.keyPath)

theorem issue?_below (i : Nat) (p : PlacedRule) : (p.below i).issue? ps
    = (p.issue? ps).map fun issue => (issue.under (.field "subParameters")).under (.index i) := by
  rw [PlacedRule.issue?, PlacedRule.issue?, Option.map_map]
  rfl

theorem ruleIssues_eq (i k : Nat) (owner : String) (rules : List Rule) :
    (ruleIssues ps owner k rules).map (Issue.under (.index i))
      = (rules.zipIdx k).filterMap fun e => PlacedRule.issue? ps ⟨⟨[], i, e.2⟩, owner, e.1⟩ := by
  induction rules generalizing k with
  | nil => rfl
  | cons rule rules ih =>
    rw [ruleIssues, List.zipIdx_cons, List.filterMap_cons, ← ih, PlacedRule.issue?]
    cases ruleFault? ps owner rule with
    | none => rfl
    | some message => rfl

theorem conditionIssues_flatMap (i : Nat) (os : List Override) : conditionIssues ps i os
    = (os.zipIdx i).flatMap fun e => (issuesOf ps e.1).map (Issue.under (.index e.2)) := by
  induction os generalizing i with
  | nil => rw [conditionIssues, List.zipIdx_nil, List.flatMap_nil]
  | cons o os ih => rw [conditionIssues, ih, List.zipIdx_cons, List.flatMap_cons]

theorem issuesBelow_eq (o : Override) : issuesBelow ps o.subParameters
    = (conditionIssues ps 0 o.subs).map (Issue.under (.field "subParameters")) := by
  rw [subs]
  cases o.subParameters with
  | none => rw [issuesBelow, Option.getD_none, conditionIssues, List.map_nil]
  | some os => rw [issuesBelow, Option.getD_some]

/-- The issues are those about the rules, in the order of their sites. -/
theorem conditionIssues_eq (os : List Override) :
    conditionIssues ps 0 os = (placedRules 0 os).filterMap (PlacedRule.issue? ps) := by
  induction os using subs_induction with
  | step os ih =>
    rw [conditionIssues_flatMap, placedRules_eq, List.filterMap_flatMap]
    refine List.flatMap_congr fun ⟨o, i⟩ he => ?_
    have ho := List.mem_of_getElem? (List.mem_zipIdx_iff_getElem?.mp he)
    have hbelow : ((issuesBelow ps o.subParameters).map (Issue.under (.index i)))
        = ((placedRules 0 o.subs).map (PlacedRule.below i)).filterMap (PlacedRule.issue? ps) := by
      rw [issuesBelow_eq, ih o ho, List.map_map, List.map_filterMap, List.filterMap_map]
      exact List.filterMap_congr fun p _ => (issue?_below i p).symm
    rw [issuesOf_eq, List.map_append, ruleIssues_eq, hbelow, placedOf_eq, List.filterMap_append]
    congr 1
    rw [List.filterMap_map]
    rfl

theorem at?_slot {name : String} {v? : Option Value} (h : (name, v?) ∈ o.slots)
    (path : List Step) : o.toValue.at? (.field name :: path) = v?.bind (at? path) := by
  rw [toValue_eq, at?_field, Fields.get?_ofSlots (Fields.nodup_of_areNames o.areNames_slots) h]

theorem at?_entryPath (h : overrideAt? site.positions os = some o) (path : List Step) :
    (Value.list (toValues os)).at? (site.entryPath ++ path) = o.toValue.at? path := by
  obtain ⟨above, i, k⟩ := site
  induction above generalizing os with
  | nil =>
    have ho : os[i]? = some o := h
    change (Value.list (toValues os)).at? (.index i :: path) = _
    rw [at?_index, toValues_eq, List.getElem?_map, ho]
    rfl
  | cons j above ih =>
    change overrideAt? (RuleSite.below j ⟨above, i, k⟩).positions os = some o at h
    change (Value.list (toValues os)).at? (.index j :: .field "subParameters"
      :: (RuleSite.entryPath ⟨above, i, k⟩ ++ path)) = _
    rw [overrideAt?_cons, Option.bind_eq_some_iff] at h
    obtain ⟨first, hfirst, hbelow⟩ := h
    have hslot : (("subParameters", first.subParameters.map fun os => .list (os.map toValue)) :
        String × Option Value) ∈ first.slots := by
      simp [slots]
    rw [at?_index, toValues_eq, List.getElem?_map, hfirst, Option.map_some, Option.bind_some,
      at?_slot hslot]
    rw [subs] at hbelow
    cases hsubs : first.subParameters with
    | none =>
      rw [hsubs, Option.getD_none, overrideAt?_nil] at hbelow
      cases hbelow
    | some below =>
      rw [hsubs, Option.getD_some] at hbelow
      rw [Option.map_some, Option.bind_some, ← toValues_eq]
      exact ih hbelow

theorem at?_keyPath (h : RuleAt os site o rule) :
    (Value.list (toValues os)).at? site.keyPath = some (.text rule.jsonKey) := by
  obtain ⟨ho, hrule⟩ := h
  have hslot : (("conditions", o.conditions.map fun rules => .list (rules.map Rule.toValue)) :
      String × Option Value) ∈ o.slots := by
    simp [slots]
  rw [RuleSite.keyPath, at?_entryPath ho, at?_slot hslot]
  cases hconditions : o.conditions with
  | none => simp [hconditions] at hrule
  | some rules =>
    rw [hconditions, Option.getD_some] at hrule
    have hkey : (("jsonKey", some (.text rule.jsonKey)) : String × Option Value) ∈ rule.slots := by
      simp [Rule.slots]
    rw [Option.map_some, Option.bind_some, at?_index, List.getElem?_map, hrule, Option.map_some,
      Option.bind_some, Rule.toValue_eq, at?_field,
      Fields.get?_ofSlots (Fields.nodup_of_areNames rule.areNames_slots) hkey]
    rfl

/-- What a partial function makes of a list, entry by entry of those of which it makes anything. -/
theorem forall₂_filterMap {α β γ : Type} {R : γ → β → Prop} {f : α → Option β} {g : α → γ}
    {as : List α} (h : ∀ a ∈ as, ∀ b ∈ f a, R (g a) b) :
    List.Forall₂ R ((as.filter fun a => (f a).isSome).map g) (as.filterMap f) := by
  induction as with
  | nil => exact .nil
  | cons a as ih =>
    rw [List.forall_mem_cons] at h
    rw [List.filter_cons, List.filterMap_cons]
    cases hfa : f a with
    | none => exact ih h.2
    | some b => exact .cons (h.1 b hfa) (ih h.2)

theorem isSome_issue?_iff {p : PlacedRule} : (p.issue? ps).isSome = true
    ↔ p.rule.jsonKey = p.owner ∨ find? p.rule.jsonKey ps = none := by
  rw [PlacedRule.issue?, Option.isSome_map, ← not_iff_not, Bool.not_eq_true,
    Option.isSome_eq_false_iff, Option.isNone_iff_eq_none, ruleFault?_eq_none_iff, not_or,
    Option.isSome_iff_ne_none]

theorem reportedAt_of_mem {p : PlacedRule} (hp : p ∈ placedRules 0 os) {issue : Issue}
    (hissue : issue ∈ p.issue? ps) : ReportedAt ps os p.site issue := by
  obtain ⟨o, hat, howner⟩ := mem_placedRules_iff.mp hp
  obtain ⟨message, hfault, rfl⟩ := Option.map_eq_some_iff.mp hissue
  exact ⟨o, p.rule, hat, howner ▸ hfault, rfl, at?_keyPath hat⟩

/-- The sites of the rules that the check has an issue about. -/
def faultySites (ps : List Parameter) (os : List Override) : List RuleSite :=
  ((placedRules 0 os).filter fun p => (p.issue? ps).isSome).map PlacedRule.site

theorem mem_faultySites_iff : site ∈ faultySites ps os ↔ FaultyAt ps os site := by
  rw [faultySites, List.mem_map]
  constructor
  · rintro ⟨p, hp, rfl⟩
    obtain ⟨hp, hissue⟩ := List.mem_filter.mp hp
    obtain ⟨o, hat, howner⟩ := mem_placedRules_iff.mp hp
    exact ⟨o, p.rule, hat, howner ▸ isSome_issue?_iff.mp hissue⟩
  · rintro ⟨o, rule, hat, hfault⟩
    have hp : ⟨site, o.jsonKey, rule⟩ ∈ placedRules 0 os := mem_placedRules_iff.mpr ⟨o, hat, rfl⟩
    exact ⟨_, List.mem_filter.mpr ⟨hp, isSome_issue?_iff.mpr hfault⟩, rfl⟩

theorem faultySites_pairwise (ps : List Parameter) (os : List Override) :
    (faultySites ps os).Pairwise RuleSite.Before := by
  rw [faultySites, List.pairwise_map]
  exact (placedRules_pairwise os).filter _

theorem reported_conditionIssues (ps : List Parameter) (os : List Override) :
    List.Forall₂ (ReportedAt ps os) (faultySites ps os) (conditionIssues ps 0 os) := by
  rw [faultySites, conditionIssues_eq]
  exact forall₂_filterMap fun p hp issue hissue => reportedAt_of_mem hp hissue

theorem nodup_paths_conditionIssues (ps : List Parameter) (os : List Override) :
    ((conditionIssues ps 0 os).map Issue.path).Nodup := by
  have hpaths : (conditionIssues ps 0 os).map Issue.path
      = (faultySites ps os).map RuleSite.keyPath := by
    rw [← List.forall₂_eq_eq_eq, List.forall₂_map_left_iff, List.forall₂_map_right_iff]
    exact (reported_conditionIssues ps os).flip.imp fun _ _ ⟨_, _, _, _, hpath, _⟩ => hpath
  rw [hpaths]
  exact List.Nodup.map RuleSite.keyPath_injective
    ((faultySites_pairwise ps os).imp RuleSite.Before.ne)

theorem conditionIssues_eq_nil_iff :
    conditionIssues ps 0 os = [] ↔ ¬ ∃ site, FaultyAt ps os site := by
  rw [← List.length_eq_zero_iff, ← (reported_conditionIssues ps os).length_eq,
    List.length_eq_zero_iff, List.eq_nil_iff_forall_not_mem, not_exists]
  exact forall_congr' fun site => mem_faultySites_iff.not

/-- The check fails exactly if a rule of the overrides names the parameter that it belongs to, or
none of the tree. It then fails with one issue for each such rule, in the order of their sites, and
the path of each leads through the overrides to the key of its rule, and of no other. -/
theorem checkConditions_faulty (os : List Override) (ps : List Parameter) :
    ((∃ failure, checkConditions os ps = .error failure) ↔ ∃ site, FaultyAt ps os site)
      ∧ ∃ sites issues, (∀ site, site ∈ sites ↔ FaultyAt ps os site)
        ∧ sites.Pairwise RuleSite.Before
        ∧ List.Forall₂ (ReportedAt ps os) sites issues
        ∧ (issues.map Issue.path).Nodup
        ∧ checkConditions os ps = if issues = [] then .ok () else .error (.uiSchema issues) := by
  have hcheck : checkConditions os ps = if conditionIssues ps 0 os = [] then .ok ()
      else .error (.uiSchema (conditionIssues ps 0 os)) := by
    unfold checkConditions
    cases conditionIssues ps 0 os <;> rfl
  refine ⟨?_, _, _, fun _ => mem_faultySites_iff, faultySites_pairwise ps os,
    reported_conditionIssues ps os, nodup_paths_conditionIssues ps os, hcheck⟩
  rw [hcheck, ← not_not (a := ∃ site, FaultyAt ps os site), ← conditionIssues_eq_nil_iff]
  split_ifs with h <;> simp [h]

/-- A rule of an override below another one, and a rule of the override after it. -/
example :
    let rule (key : String) : Rule := ⟨key, none, .null, none⟩
    let below : Override := { jsonKey := "a.b", conditions := some [rule "a.b"] }
    checkConditions
        [{ jsonKey := "a", subParameters := some [below] },
          { jsonKey := "c", conditions := some [rule "d"] }] []
      = .error (.uiSchema
        [⟨[.index 0, .field "subParameters", .index 0, .field "conditions", .index 0,
            .field "jsonKey"], "condition of \"a.b\" cannot depend on itself"⟩,
          ⟨[.index 1, .field "conditions", .index 0, .field "jsonKey"],
            "condition refers to unknown parameter \"d\""⟩]) := by
  rfl

end ParamForm.Override
