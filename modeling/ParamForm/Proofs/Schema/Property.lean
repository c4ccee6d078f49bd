import Mathlib.Data.List.Lex
import ParamForm.Parameter.Derive
import ParamForm.Proofs.Value.JsonData

/-!
# Properties of a schema

The properties that a form shows, depth first and in the order of their names
(`Schema.properties`). They are those that are reached from the root through the properties of
objects and of the items of arrays (`Schema.mem_properties_iff`), they stand in the order of their
paths (`Schema.before_properties`), and each has a path of its own (`Schema.nodup_paths`).
-/

namespace ParamForm.Schema

open Value

/-- A property of a schema: the names of the properties around it, from the root on, its own name,
the node that owns it, and its own node. -/
structure Property where
  enclosing : List String
  name : String
  owner : Value
  node : Value

/-- The names from the root to a property, its own being the last. -/
def Property.path (q : Property) : List String :=
  q.enclosing ++ [q.name]

/-- Whether the owner of a property lists it as required. -/
def Property.IsRequired (q : Property) : Prop :=
  ∃ names, q.owner.member "required" = .list names ∧ .text q.name ∈ names

/-- The node whose properties are the children of a node: an object itself, the items of an array of
objects, and nothing in any other case. -/
def childOwner (node : Value) : Value :=
  match Kind.ofNode node with
  | .object => node
  | .arrayOfObject => node.member "items"
  | _ => .absent

/-- The properties that a node has itself. -/
def ownFields (owner : Value) : Fields :=
  (owner.member "properties").entries

theorem getD_properties? (node : Value) : (properties? node).getD [] = ownFields node := by
  unfold properties? ownFields
  cases h : node.member "properties" <;> rfl

theorem ownFields_of_not_isObject {owner : Value} (h : owner.isObject = false) :
    ownFields owner = [] := by
  cases owner with
  | date ms => cases h
  | bytes bs => cases h
  | record fields => cases h
  | _ => rfl

theorem weight_member_le (v : Value) (name : String) : weight (v.member name) ≤ weight v := by
  cases h : (v.member name).isAbsent with
  | false => exact (weight_member h).le
  | true =>
    have habsent : v.member name = .absent := by
      cases hv : v.member name <;> simp_all [isAbsent]
    rw [habsent]
    exact Nat.one_le_of_lt (fieldsWeight_entries v)

theorem weight_childOwner_le (node : Value) : weight (childOwner node) ≤ weight node := by
  unfold childOwner
  split
  · exact le_rfl
  · exact weight_member_le node "items"
  · exact Nat.one_le_of_lt (fieldsWeight_entries node)

theorem fieldsWeight_ownFields (owner : Value) : fieldsWeight (ownFields owner) < weight owner :=
  (fieldsWeight_entries _).trans_le (weight_member_le owner "properties")

/-- The properties of a list of fields that belong to an owner, each before those below it. -/
def among (path : List String) (owner : Value) : List (String × Value) → List Property
  | [] => []
  | (name, node) :: rest =>
    ⟨path, name, owner, node⟩
      :: (among (path ++ [name]) (childOwner node) (ownFields (childOwner node))
        ++ among path owner rest)
termination_by fields => fieldsWeight fields
decreasing_by
  · have := fieldsWeight_ownFields (childOwner node)
    have := weight_childOwner_le node
    simp only [fieldsWeight]
    omega
  · simp only [fieldsWeight]
    omega

/-- The properties of a schema, depth first. -/
def properties (schema : Value) : List Property :=
  among [] schema (ownFields schema)

/-- Whether a property is reached from the root of a schema. -/
inductive Reached (schema : Value) : Property → Prop
  | root {f : String × Value} : f ∈ ownFields schema → Reached schema ⟨[], f.1, schema, f.2⟩
  | child {q : Property} {f : String × Value} :
    Reached schema q → f ∈ ownFields (childOwner q.node) →
      Reached schema ⟨q.path, f.1, childOwner q.node, f.2⟩

theorem reached_of_mem_among {schema : Value} (path : List String) (owner : Value)
    (fields : List (String × Value))
    (h : ∀ f ∈ fields, Reached schema ⟨path, f.1, owner, f.2⟩) :
    ∀ q ∈ among path owner fields, Reached schema q := by
  induction path, owner, fields using among.induct with
  | case1 path owner =>
    rw [among]
    simp
  | case2 path owner name node rest ihBelow ihRest =>
    have hhead := h (name, node) List.mem_cons_self
    rw [among]
    intro q hq
    rcases List.mem_cons.mp hq with rfl | hq
    · exact hhead
    · rcases List.mem_append.mp hq with hq | hq
      · exact ihBelow (fun f hf => hhead.child hf) q hq
      · exact ihRest (fun f hf => h f (List.mem_cons_of_mem _ hf)) q hq

theorem mem_among {path : List String} {owner : Value} {fields : List (String × Value)}
    {f : String × Value} (h : f ∈ fields) :
    ⟨path, f.1, owner, f.2⟩ ∈ among path owner fields := by
  induction fields with
  | nil => cases h
  | cons g fields ih =>
    rw [among]
    rcases List.mem_cons.mp h with rfl | h
    · exact List.mem_cons_self
    · exact List.mem_cons_of_mem _ (List.mem_append_right _ (ih h))

theorem child_mem_among {path : List String} {owner : Value} {fields : List (String × Value)}
    {q : Property} {f : String × Value} (hq : q ∈ among path owner fields)
    (hf : f ∈ ownFields (childOwner q.node)) :
    ⟨q.path, f.1, childOwner q.node, f.2⟩ ∈ among path owner fields := by
  induction path, owner, fields using among.induct with
  | case1 path owner =>
    rw [among] at hq
    cases hq
  | case2 path owner name node rest ihBelow ihRest =>
    rw [among] at hq ⊢
    refine List.mem_cons_of_mem _ (List.mem_append.mpr ?_)
    rcases List.mem_cons.mp hq with rfl | hq
    · exact .inl (mem_among hf)
    · exact (List.mem_append.mp hq).imp ihBelow ihRest

/-- The properties of a schema are those that are reached from its root. -/
theorem mem_properties_iff {schema : Value} {q : Property} :
    q ∈ properties schema ↔ Reached schema q := by
  constructor
  · exact reached_of_mem_among [] schema (ownFields schema) (fun f hf => .root hf) q
  · intro h
    induction h with
    | root hf => exact mem_among hf
    | child _ hf ih => exact child_mem_among ih hf

/-- Whether a property comes before another one, by the names on their paths: it stands around the
other one, or where the paths part its name comes first. -/
def Property.Before (q r : Property) : Prop :=
  List.Lex Fields.Before q.path r.path

/-- A property that comes from a list of fields is that of a field, or stands below one. -/
theorem prefix_of_mem_among {path : List String} {owner : Value} {fields : List (String × Value)}
    {q : Property} (hq : q ∈ among path owner fields) :
    ∃ f ∈ fields, path ++ [f.1] <+: q.path := by
  induction path, owner, fields using among.induct with
  | case1 path owner =>
    rw [among] at hq
    cases hq
  | case2 path owner name node rest ihBelow ihRest =>
    rw [among] at hq
    rcases List.mem_cons.mp hq with rfl | hq
    · exact ⟨_, List.mem_cons_self, List.prefix_rfl⟩
    · rcases List.mem_append.mp hq with hq | hq
      · obtain ⟨f, -, hpath⟩ := ihBelow hq
        exact ⟨_, List.mem_cons_self, (List.prefix_append _ _).trans hpath⟩
      · obtain ⟨f, hf, hpath⟩ := ihRest hq
        exact ⟨f, List.mem_cons_of_mem _ hf, hpath⟩

theorem lex_of_around {path p : List String} {name : String} (h : path ++ [name] <+: p) :
    List.Lex Fields.Before path p := by
  obtain ⟨rest, rfl⟩ := h
  have hnil : List.Lex Fields.Before [] ([name] ++ rest) := .nil
  have hlex := hnil.append_left _ path
  rwa [List.append_nil, ← List.append_assoc] at hlex

theorem lex_of_parting {path p r : List String} {name other : String}
    (h : Fields.Before name other) (hp : path ++ [name] <+: p) (hr : path ++ [other] <+: r) :
    List.Lex Fields.Before p r := by
  obtain ⟨s, rfl⟩ := hp
  obtain ⟨t, rfl⟩ := hr
  rw [List.append_assoc, List.append_assoc]
  exact List.Lex.append_left _ (.rel h) path

theorem ordered_entries {v : Value} (h : v.WellFormed) : Fields.Ordered v.entries := by
  cases v with
  | record fields => exact h.1
  | bytes bs => exact ordered_indexed (byteNumbers bs)
  | _ => exact List.Pairwise.nil

theorem wellFormed_childOwner {node : Value} (h : node.WellFormed) :
    (childOwner node).WellFormed := by
  unfold childOwner
  split
  · exact h
  · exact h.member "items"
  · trivial

theorem ordered_ownFields {owner : Value} (h : owner.WellFormed) :
    Fields.Ordered (ownFields owner) ∧ WellFormedFields (ownFields owner) :=
  ⟨ordered_entries (h.member "properties"), wellFormedFields_entries (h.member "properties")⟩

/-- The properties below the fields of an owner are in order: those that come later are below
another field, and those below a field come after its own. -/
theorem before_among {path : List String} {owner : Value} {fields : List (String × Value)}
    (hordered : Fields.Ordered fields) (hwell : WellFormedFields fields) :
    (among path owner fields).Pairwise Property.Before := by
  induction path, owner, fields using among.induct with
  | case1 path owner =>
    rw [among]
    exact .nil
  | case2 path owner name node rest ihBelow ihRest =>
    unfold Fields.Ordered at hordered
    rw [List.pairwise_cons] at hordered
    obtain ⟨hchild, hchildren⟩ := ordered_ownFields (wellFormed_childOwner hwell.1)
    have hparting : ∀ r ∈ among path owner rest, ∀ p, path ++ [name] <+: p →
        List.Lex Fields.Before p r.path := by
      intro r hr p hp
      obtain ⟨f, hf, hpath⟩ := prefix_of_mem_among hr
      exact lex_of_parting (hordered.1 f hf) hp hpath
    have hbelow : ∀ q ∈ among (path ++ [name]) (childOwner node) (ownFields (childOwner node)),
        List.Lex Fields.Before (path ++ [name]) q.path := by
      intro q hq
      obtain ⟨f, -, hpath⟩ := prefix_of_mem_among hq
      exact lex_of_around hpath
    rw [among, List.pairwise_cons, List.pairwise_append]
    refine ⟨fun r hr => ?_, ihBelow hchild hchildren, ihRest hordered.2 hwell.2,
      fun q hq r hr => ?_⟩
    · rcases List.mem_append.mp hr with hr | hr
      · exact hbelow r hr
      · exact hparting r hr _ List.prefix_rfl
    · obtain ⟨f, -, hpath⟩ := prefix_of_mem_among hq
      exact hparting r hr q.path ((List.prefix_append _ _).trans hpath)

/-- The properties of a schema come one before another. -/
theorem before_properties {schema : Value} (h : schema.WellFormed) :
    (properties schema).Pairwise Property.Before :=
  before_among (ordered_ownFields h).1 (ordered_ownFields h).2

theorem Property.Before.path_ne {q r : Property} (h : q.Before r) : q.path ≠ r.path :=
  (List.Lex.imp (fun _ _ => Fields.Before.ne) _ _ h).to_ne

theorem nodup_paths {schema : Value} (h : schema.WellFormed) :
    ((properties schema).map Property.path).Nodup := by
  unfold List.Nodup
  rw [List.pairwise_map]
  exact (before_properties h).imp Property.Before.path_ne

end ParamForm.Schema
