import ParamForm.Proofs.Parameter.Walk

/-!
# Chains of parameters

A parameter of a tree stands at the end of a chain of parameters, each below the one before
(`Parameter.chain?`), and a walk visits exactly the ends of the chains, each at the depth of the
parameters above it (`Parameter.mem_walk_iff`). The induction from a walk to a chain follows the
parameters, the one back follows the positions.
-/

namespace ParamForm.Parameter

/-- The parameters along a path of positions, each a sub-parameter of the one before. -/
def chain? : List Nat → List Parameter → Option (List Parameter)
  | [], _ => some []
  | i :: path, ps => ps[i]?.bind fun p => (chain? path p.children).map (p :: ·)

theorem chain?_cons_eq_some {i : Nat} {path : List Nat} {ps chain : List Parameter} :
    chain? (i :: path) ps = some chain
      ↔ ∃ p below, ps[i]? = some p ∧ chain? path p.children = some below ∧ chain = p :: below := by
  rw [chain?, Option.bind_eq_some_iff]
  simp only [Option.map_eq_some_iff]
  grind

/-- Whether a visit is to the end of a chain below a list at a depth. -/
def EndsChain (depth : Nat) (ps : List Parameter) (visit : Nat × Parameter) : Prop :=
  ∃ path ancestors, chain? path ps = some (ancestors ++ [visit.2])
    ∧ visit.1 = depth + ancestors.length

theorem EndsChain.below {depth : Nat} {ps : List Parameter} {visit : Nat × Parameter} {i : Nat}
    {p : Parameter} (hp : ps[i]? = some p) (h : EndsChain (depth + 1) p.children visit) :
    EndsChain depth ps visit := by
  obtain ⟨path, ancestors, hchain, hdepth⟩ := h
  refine ⟨i :: path, p :: ancestors, chain?_cons_eq_some.mpr ⟨p, _, hp, hchain, rfl⟩, ?_⟩
  rw [hdepth, List.length_cons]
  omega

theorem EndsChain.later {depth : Nat} {p : Parameter} {ps : List Parameter}
    {visit : Nat × Parameter} (h : EndsChain depth ps visit) : EndsChain depth (p :: ps) visit := by
  obtain ⟨_ | ⟨i, path⟩, ancestors, hchain, hdepth⟩ := h
  · simp [chain?] at hchain
  · exact ⟨(i + 1) :: path, ancestors, hchain, hdepth⟩

mutual

theorem endsChain_of_walkBy : ∀ (depth : Nat) (ps : List Parameter),
    ∀ visit ∈ walkBy (· + 1) depth ps, EndsChain depth ps visit
  | _, [], _, h => by
    rw [walkBy] at h
    cases h
  | depth, p :: ps, visit, h => by
    rw [walkBy, List.mem_append] at h
    rcases h with h | h
    · rcases endsChain_of_walkOneBy depth p visit h with rfl | h
      · exact ⟨[0], [], rfl, rfl⟩
      · exact h.below (i := 0) rfl
    · exact (endsChain_of_walkBy depth ps visit h).later

theorem endsChain_of_walkOneBy : ∀ (depth : Nat) (p : Parameter),
    ∀ visit ∈ walkOneBy (· + 1) depth p,
      visit = (depth, p) ∨ EndsChain (depth + 1) p.children visit
  | depth, ⟨info, subs, extra⟩, visit, h => by
    rw [walkOneBy, List.mem_cons] at h
    exact h.imp_right (endsChain_of_walkSubsBy (depth + 1) subs visit)

theorem endsChain_of_walkSubsBy : ∀ (depth : Nat) (subs : Option (List Parameter)),
    ∀ visit ∈ walkSubsBy (· + 1) depth subs, EndsChain depth (subs.getD []) visit
  | _, none, _, h => by
    rw [walkSubsBy] at h
    cases h
  | depth, some ps, visit, h => by
    rw [walkSubsBy] at h
    exact endsChain_of_walkBy depth ps visit h

end

theorem mem_walkBy_of_chain (depth : Nat) {path : List Nat} {ps ancestors : List Parameter}
    {p : Parameter} (h : chain? path ps = some (ancestors ++ [p])) :
    (depth + ancestors.length, p) ∈ walkBy (· + 1) depth ps := by
  induction path generalizing depth ps ancestors with
  | nil => simp [chain?] at h
  | cons i path ih =>
    obtain ⟨q, below, hq, hbelow, hchain⟩ := chain?_cons_eq_some.mp h
    rw [walkBy_eq_flatMap, List.mem_flatMap]
    refine ⟨q, List.mem_of_getElem? hq, ?_⟩
    rw [walkOneBy_eq_cons, walkSubsBy_eq_children, List.mem_cons]
    cases ancestors with
    | nil =>
      obtain ⟨rfl, -⟩ := List.cons.inj hchain
      exact .inl rfl
    | cons a ancestors =>
      obtain ⟨rfl, rfl⟩ := List.cons.inj hchain
      have hmem := ih (depth + 1) hbelow
      rw [Nat.add_right_comm] at hmem
      exact .inr hmem

/-- A walk visits the ends of the chains, each at the depth of the parameters above it. -/
theorem mem_walk_iff {ps : List Parameter} {visit : Nat × Parameter} :
    visit ∈ walk ps ↔ ∃ path ancestors, chain? path ps = some (ancestors ++ [visit.2])
      ∧ visit.1 = ancestors.length := by
  constructor
  · intro h
    obtain ⟨path, ancestors, hchain, hdepth⟩ := endsChain_of_walkBy 0 ps visit h
    exact ⟨path, ancestors, hchain, hdepth.trans (Nat.zero_add _)⟩
  · rintro ⟨path, ancestors, hchain, hdepth⟩
    have hmem := mem_walkBy_of_chain 0 hchain
    rwa [Nat.zero_add, ← hdepth] at hmem

end ParamForm.Parameter
