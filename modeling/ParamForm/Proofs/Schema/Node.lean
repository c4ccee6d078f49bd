import ParamForm.Proofs.Schema.Property

/-!
# The nodes of a derivation

A derivation comes from a node to its properties and to the schema of its further keys, and so to
the nodes below these (`Schema.Derives`). A condition holds of all of them exactly if it holds of
the node itself and of all that come from the next ones (`Schema.everywhere_iff`). In the order in
which the derivation of a schema comes to them they are `Schema.nodes`.
-/

namespace ParamForm.Schema

open Value

/-- Whether the derivation of a node comes to another one, or to itself. -/
inductive Derives : Value → Value → Prop
  | self (node : Value) : Derives node node
  | property {node target : Value} {f : String × Value} :
    f ∈ ownFields (childOwner node) → Derives f.2 target → Derives node target
  | further {node further target : Value} :
    furtherKeys? (Kind.ofNode node) node = some further → Derives further target →
      Derives node target

/-- Whether a condition holds of every node that the derivation of a node comes to. -/
def Everywhere (P : Value → Prop) (node : Value) : Prop :=
  ∀ target, Derives node target → P target

/-- Whether a condition holds of every node that a schema gives a parameter for, those of further
keys included. -/
def EveryNode (P : Value → Prop) (schema : Value) : Prop :=
  ∀ f ∈ ownFields schema, Everywhere P f.2

variable {P : Value → Prop} {node : Value}

theorem everywhere_iff : Everywhere P node
    ↔ P node ∧ EveryNode P (childOwner node)
      ∧ ∀ further ∈ furtherKeys? (Kind.ofNode node) node, Everywhere P further := by
  constructor
  · intro h
    exact ⟨h node (.self node), fun f hf target htarget => h target (.property hf htarget),
      fun further hfurther target htarget => h target (.further hfurther htarget)⟩
  · rintro ⟨hself, hproperties, hfurther⟩ target htarget
    cases htarget with
    | self => exact hself
    | property hf htarget => exact hproperties _ hf target htarget
    | further hkeys htarget => exact hfurther _ hkeys target htarget

theorem weight_of_mem {fields : Fields} {f : String × Value} (h : f ∈ fields) :
    weight f.2 < fieldsWeight fields := by
  induction fields with
  | nil => cases h
  | cons g fields ih =>
    obtain ⟨name, v⟩ := g
    rw [fieldsWeight]
    rcases List.mem_cons.mp h with rfl | h
    · show weight v < _
      omega
    · have := ih h
      omega

/-- The properties of a node weigh less than the node. -/
theorem weight_of_mem_childOwner {f : String × Value} (h : f ∈ ownFields (childOwner node)) :
    weight f.2 < weight node :=
  (weight_of_mem h).trans ((fieldsWeight_ownFields _).trans_le (weight_childOwner_le node))

mutual

/-- The nodes that the derivation of a node comes to: the node, then those of its properties, then
those of its further keys. -/
def nodesFrom (node : Value) : List Value :=
  node :: (nodesOfFields (ownFields (childOwner node))
    ++ match _h : furtherKeys? (Kind.ofNode node) node with
      | none => []
      | some further => nodesFrom further)
termination_by weight node
decreasing_by
  · exact (fieldsWeight_ownFields _).trans_le (weight_childOwner_le node)
  · exact weight_furtherKeys _h

/-- The nodes of properties, each followed by those that derivation reaches from it. -/
def nodesOfFields : List (String × Value) → List Value
  | [] => []
  | (_, node) :: rest => nodesFrom node ++ nodesOfFields rest
termination_by fields => fieldsWeight fields
decreasing_by
  · simp only [fieldsWeight]
    omega
  · simp only [fieldsWeight]
    omega

end

/-- The nodes that a schema gives parameters for, those of further keys included. -/
def nodes (schema : Value) : List Value :=
  nodesOfFields (ownFields schema)

theorem nodesFrom_eq (node : Value) : nodesFrom node
    = node :: (nodes (childOwner node)
      ++ (furtherKeys? (Kind.ofNode node) node).elim [] nodesFrom) := by
  rw [nodesFrom, nodes]
  split <;> simp_all

theorem mem_nodesOfFields {fields : Fields} {target : Value} :
    target ∈ nodesOfFields fields ↔ ∃ f ∈ fields, target ∈ nodesFrom f.2 := by
  induction fields with
  | nil => simp [nodesOfFields]
  | cons f fields ih => rw [nodesOfFields, List.mem_append, ih, List.exists_mem_cons_iff]

theorem derives_of_mem_nodesFrom (node : Value) :
    ∀ target ∈ nodesFrom node, Derives node target := by
  intro target h
  rw [nodesFrom_eq, List.mem_cons, List.mem_append] at h
  rcases h with rfl | h | h
  · exact .self target
  · obtain ⟨f, hf, htarget⟩ := mem_nodesOfFields.mp h
    have := weight_of_mem_childOwner hf
    exact .property hf (derives_of_mem_nodesFrom f.2 target htarget)
  · cases hkeys : furtherKeys? (Kind.ofNode node) node with
    | none =>
      rw [hkeys] at h
      cases h
    | some further =>
      rw [hkeys] at h
      have := weight_furtherKeys hkeys
      exact .further hkeys (derives_of_mem_nodesFrom further target h)
termination_by weight node

/-- The listed nodes are those that the derivation comes to. -/
theorem mem_nodesFrom {node target : Value} : target ∈ nodesFrom node ↔ Derives node target := by
  refine ⟨derives_of_mem_nodesFrom node target, fun h => ?_⟩
  induction h with
  | self node =>
    rw [nodesFrom_eq]
    exact List.mem_cons_self
  | property hf _ ih =>
    rw [nodesFrom_eq]
    refine List.mem_cons_of_mem _ (List.mem_append_left _ ?_)
    exact mem_nodesOfFields.mpr ⟨_, hf, ih⟩
  | further hkeys _ ih =>
    rw [nodesFrom_eq, hkeys]
    exact List.mem_cons_of_mem _ (List.mem_append_right _ ih)

theorem mem_nodes {schema target : Value} :
    target ∈ nodes schema ↔ ∃ f ∈ ownFields schema, Derives f.2 target := by
  rw [nodes, mem_nodesOfFields]
  simp only [mem_nodesFrom]

theorem everyNode_iff {schema : Value} : EveryNode P schema ↔ ∀ node ∈ nodes schema, P node := by
  simp only [mem_nodes]
  constructor
  · rintro h node ⟨f, hf, hnode⟩
    exact h f hf node hnode
  · intro h f hf node hnode
    exact h node ⟨f, hf, hnode⟩

end ParamForm.Schema
