import ParamForm.Proofs.Parameter.Shape
import ParamForm.Proofs.Parameter.Siblings

/-!
# Sorted trees below further keys

A path through a tree (`Parameter.Leads`) may follow, at each parameter, links to the parameters of
further keys before it goes on to sub-parameters. Sorting reaches the siblings at its end exactly
if it follows no two such links in a row; otherwise it leaves them as they were
(`Parameter.leads_arrange`).
-/

namespace ParamForm.Parameter

/-- The parameter that `n` links to parameters of further keys lead to. -/
def afterLinks : Nat → Parameter → Option Parameter
  | 0, p => some p
  | n + 1, p => p.additionalParameter.bind (afterLinks n)

/-- Siblings further down. Each step of the path goes to a sibling with the given data, its sort
number apart, then over the given number of links to parameters of further keys, and then to the
sub-parameters. -/
inductive Leads : List Parameter → List (ParameterInfo × Nat) → List Parameter → Prop
  | here (ps : List Parameter) : Leads ps [] ps
  | step {ps below found : List Parameter} {p v : Parameter} {links : Nat}
      {path : List (ParameterInfo × Nat)} (hp : p ∈ ps) (hv : afterLinks links p = some v)
      (hbelow : v.subParameters = some below) (h : Leads below path found) :
      Leads ps ((p.info.unsorted, links) :: path) found

/-- Whether a path follows no two links to parameters of further keys in a row. -/
def Reached (path : List (ParameterInfo × Nat)) : Prop :=
  ∀ step ∈ path, step.2 ≤ 1

theorem reached_cons {info : ParameterInfo} {links : Nat} {path : List (ParameterInfo × Nat)} :
    Reached ((info, links) :: path) ↔ links ≤ 1 ∧ Reached path :=
  List.forall_mem_cons

/-- What holds of all siblings at the ends of such paths. -/
def AllReached (P : List Parameter → Prop) (ps : List Parameter) : Prop :=
  ∀ path given, Reached path → Leads ps path given → P given

theorem allReached_iff {P : List Parameter → Prop} {ps : List Parameter} :
    AllReached P ps ↔ P ps ∧ ∀ p ∈ ps, (∀ below ∈ p.subParameters, AllReached P below)
      ∧ ∀ v ∈ p.additionalParameter, ∀ below ∈ v.subParameters, AllReached P below := by
  constructor
  · intro h
    refine ⟨h [] ps (List.forall_mem_nil _) (.here ps), fun p hp => ⟨?_, ?_⟩⟩
    · intro below hbelow path given hpath hgiven
      exact h _ _ (reached_cons.mpr ⟨Nat.zero_le 1, hpath⟩) (.step hp rfl hbelow hgiven)
    · intro v hv below hbelow path given hpath hgiven
      refine h _ _ (reached_cons.mpr ⟨Nat.le_refl 1, hpath⟩) (.step hp ?_ hbelow hgiven)
      rw [afterLinks, show p.additionalParameter = some v from hv]
      rfl
  · rintro ⟨hhere, hbelow⟩ path given hpath hgiven
    cases hgiven with
    | here => exact hhere
    | @step _ below _ p v links rest hp hv hsubs h =>
      obtain ⟨hlinks, hrest⟩ := reached_cons.mp hpath
      match links with
      | 0 =>
        obtain rfl := Option.some.inj hv
        exact (hbelow p hp).1 below hsubs rest given hrest h
      | 1 =>
        obtain ⟨w, hw, hvw⟩ := Option.bind_eq_some_iff.mp hv
        obtain rfl := Option.some.inj hvw
        exact (hbelow p hp).2 w hw below hsubs rest given hrest h

variable (defaultSort : Number)

section Links

variable (number : Number) (p : Parameter)

theorem unsorted_arranged :
    ((arrangeBelow defaultSort p).withSort number).info.unsorted = p.info.unsorted := by
  rw [arrangeBelow_eq]
  rfl

theorem subParameters_arranged : ((arrangeBelow defaultSort p).withSort number).subParameters
    = p.subParameters.map (arrange defaultSort) := by
  rw [arrangeBelow_eq, withSort]

theorem additionalParameter_arranged :
    ((arrangeBelow defaultSort p).withSort number).additionalParameter
      = p.additionalParameter.map (arrangeValue defaultSort) := by
  rw [arrangeBelow_eq, withSort]

theorem afterLinks_one_arranged :
    afterLinks 1 ((arrangeBelow defaultSort p).withSort number)
      = (afterLinks 1 p).map (arrangeValue defaultSort) := by
  rw [afterLinks, additionalParameter_arranged, afterLinks]
  cases p.additionalParameter <;> rfl

/-- What is further away than one link is not touched. -/
theorem afterLinks_arranged (links : Nat) :
    afterLinks (links + 2) ((arrangeBelow defaultSort p).withSort number)
      = afterLinks (links + 2) p := by
  rw [afterLinks, additionalParameter_arranged, afterLinks]
  cases p.additionalParameter <;> rfl

end Links

/-- The siblings at the end of a path through a sorted tree are those at the end of this path
through the tree itself: in order and counted, if the path follows no two links to parameters of
further keys in a row, and as they were if it does. -/
theorem leads_arrange {path : List (ParameterInfo × Nat)} {ps found : List Parameter}
    (h : Leads (arrange defaultSort ps) path found) :
    ∃ given, Leads ps path given
      ∧ (Reached path → ∃ moved, SortedFrom defaultSort given moved found)
      ∧ (¬ Reached path → found = given) := by
  induction path generalizing ps with
  | nil =>
    cases h
    refine ⟨ps, .here ps, fun _ => ⟨_, sortedFrom_arrange defaultSort ps⟩, fun hpath => ?_⟩
    exact absurd (List.forall_mem_nil _) hpath
  | cons step path ih =>
    cases h with
    | @step _ below _ q v links _ hq hv hbelow h =>
      obtain ⟨p, hp, number, rfl⟩ := exists_of_mem_arrange defaultSort hq
      rw [unsorted_arranged, reached_cons]
      match links with
      | 0 =>
        obtain rfl := Option.some.inj hv
        rw [subParameters_arranged, Option.map_eq_some_iff] at hbelow
        obtain ⟨subs, hsubs, rfl⟩ := hbelow
        obtain ⟨given, hgiven, hsorted, hsame⟩ := ih h
        refine ⟨given, .step hp rfl hsubs hgiven, fun hpath => hsorted hpath.2, fun hpath => ?_⟩
        exact hsame fun hrest => hpath ⟨Nat.zero_le 1, hrest⟩
      | 1 =>
        rw [afterLinks_one_arranged, Option.map_eq_some_iff] at hv
        obtain ⟨v, hv, rfl⟩ := hv
        rw [arrangeValue, Option.map_eq_some_iff] at hbelow
        obtain ⟨subs, hsubs, rfl⟩ := hbelow
        obtain ⟨given, hgiven, hsorted, hsame⟩ := ih h
        refine ⟨given, .step hp hv hsubs hgiven, fun hpath => hsorted hpath.2, fun hpath => ?_⟩
        exact hsame fun hrest => hpath ⟨Nat.le_refl 1, hrest⟩
      | links + 2 =>
        rw [afterLinks_arranged] at hv
        refine ⟨found, .step hp hv hbelow h, fun hpath => ?_, fun _ => rfl⟩
        exact absurd hpath.1 (by omega)

theorem arrange_singleton (p : Parameter) : arrange defaultSort [p]
    = [(arrangeBelow defaultSort p).withSort ((sortBase defaultSort [p]).plus 0)] := by
  rw [arrange_eq, List.perm_singleton.mp (inOrder_perm [p])]
  rfl

/-- The values of a map are maps themselves, and the values of these have two sub-parameters, which
are not in order and stay so. -/
theorem leads_arrange_twice :
    let pair := [group "b" [], group "a" []]
    let values (v : Parameter) : Parameter := ⟨(group "m" []).info, none, some v⟩
    let p := values (values (group "m" pair))
    let path := [(p.info.unsorted, 2)]
    Leads (arrange usualSort [p]) path pair ∧ Leads [p] path pair ∧ ¬ InSiblingOrder pair := by
  intro pair values p path
  have hleads : Leads (arrange usualSort [p]) path pair := by
    rw [arrange_singleton]
    exact .step (List.mem_singleton_self _) rfl rfl (.here pair)
  have hpath : ¬ Reached path := fun h => absurd (h _ (List.mem_singleton_self _)) (by decide)
  obtain ⟨given, hgiven, -, hsame⟩ := leads_arrange usualSort hleads
  refine ⟨hleads, hsame hpath ▸ hgiven, fun h => ?_⟩
  have hrank := List.rel_of_pairwise_cons h.ascending (List.mem_singleton_self _) rfl
  rw [← isLE_compareSiblings] at hrank
  exact absurd hrank (by decide +kernel)

end ParamForm.Parameter
