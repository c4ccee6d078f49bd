import ParamForm.Proofs.Parameter.Arranged
import ParamForm.Proofs.Parameter.Derive
import ParamForm.Proofs.Render
import ParamForm.Proofs.Schema.Reorder

/-!
# Trees of reordered schemas

Derivation goes through the properties of a node in their order, and sorting forgets it: schemas
that differ in the order of properties give the same tree, apart from what is inside the parameters
of further keys, and the same diagnostics in another order (`Rendering.ofSchema_reordered`). Inside
a parameter of further keys not all lists are sorted.
-/

namespace ParamForm

namespace Schema

open Value Parameter

/-- Whether two derivations both fail, or both give results that are related, with the same
diagnostics up to order. -/
inductive Agree {α : Type} (same : α → α → Prop) :
    Except Failure (α × List Diagnostic) → Except Failure (α × List Diagnostic) → Prop
  | ok {a b : α} {found found' : List Diagnostic} :
    same a b → found.Perm found' → Agree same (.ok (a, found)) (.ok (b, found'))
  | error (failure failure' : Failure) : Agree same (.error failure) (.error failure')

namespace Agree

variable {α β : Type} {same : α → α → Prop} {same' : β → β → Prop}
  {x y z : Except Failure (α × List Diagnostic)}

theorem refl (h : ∀ a, same a a) (x : Except Failure (α × List Diagnostic)) :
    Agree same x x := by
  cases x with
  | error failure => exact .error failure failure
  | ok made => exact .ok (h made.1) (.refl made.2)

theorem trans (htrans : ∀ a b c, same a b → same b c → same a c) (hxy : Agree same x y)
    (hyz : Agree same y z) : Agree same x z := by
  cases hxy with
  | error =>
    cases hyz
    exact .error _ _
  | ok hab hfound =>
    cases hyz with
    | ok hbc hfound' => exact .ok (htrans _ _ _ hab hbc) (hfound.trans hfound')

theorem bind (h : Agree same x y)
    {f g : α × List Diagnostic → Except Failure (β × List Diagnostic)}
    (hfg : ∀ a b found found', same a b → found.Perm found' →
      Agree same' (f (a, found)) (g (b, found'))) : Agree same' (x >>= f) (y >>= g) := by
  cases h with
  | error failure failure' => exact .error failure failure'
  | ok hab hfound => exact hfg _ _ _ _ hab hfound

theorem map (h : Agree same x y) {f : α → β} (hf : ∀ a b, same a b → same' (f a) (f b)) :
    Agree same' (x.map fun made => (f made.1, made.2)) (y.map fun made => (f made.1, made.2)) := by
  cases h with
  | ok hab hfound => exact .ok (hf _ _ hab) hfound
  | error failure failure' => exact .error failure failure'

theorem imp {same' : α → α → Prop} (h : Agree same x y)
    (himp : ∀ a b found, x = .ok (a, found) → same a b → same' a b) : Agree same' x y := by
  cases h with
  | error failure failure' => exact .error failure failure'
  | ok hab hfound => exact .ok (himp _ _ _ rfl hab) hfound

theorem of_bind {γ : Type} {x : Except Failure γ}
    {f g : γ → Except Failure (β × List Diagnostic)} (h : ∀ a, Agree same' (f a) (g a)) :
    Agree same' (x >>= f) (x >>= g) := by
  cases x with
  | error failure => exact .error failure failure
  | ok a => exact h a

end Agree

variable {defaultSort : Number} {parent : String} {requiredNames : List String}
  {fields fields' : Fields}

/-- The parameters of permuted properties are permuted. -/
theorem agree_deriveFields_of_perm (h : fields.Perm fields') :
    Agree List.Perm (deriveFields defaultSort parent requiredNames fields)
      (deriveFields defaultSort parent requiredNames fields') := by
  induction h with
  | nil => exact .refl List.Perm.refl _
  | cons f _ ih =>
    rw [deriveFields, deriveFields]
    exact .of_bind fun made => ih.bind fun _ _ _ _ hps hfound =>
      .ok (hps.cons made.1) (hfound.append_left made.2)
  | swap f g fields =>
    obtain ⟨name, node⟩ := f
    obtain ⟨other, node'⟩ := g
    simp only [deriveFields]
    cases derive defaultSort other (Key.join parent other) node'
        (requiredNames.contains other) <;>
      cases derive defaultSort name (Key.join parent name) node (requiredNames.contains name) <;>
      cases deriveFields defaultSort parent requiredNames fields
    case ok.ok.ok first second rest =>
      exact .ok (.swap _ _ _) (List.perm_append_comm_assoc _ _ _)
    all_goals exact .error _ _
  | trans _ _ ih ih' => exact ih.trans (fun _ _ _ => List.Perm.trans) ih'

theorem keys_of_deriveFields {ps : List Parameter} {found : List Diagnostic}
    (h : deriveFields defaultSort parent requiredNames fields = .ok (ps, found)) :
    ps.map (·.jsonKey) = fields.map fun f => Key.join parent f.1 := by
  induction fields generalizing ps found with
  | nil =>
    rw [deriveFields] at h
    obtain ⟨rfl, -⟩ := Prod.mk.inj (Except.ok.inj h)
    rfl
  | cons f fields ih =>
    obtain ⟨p, _, ps', _, hp, hps, rfl, -⟩ := deriveFields_cons_eq_ok h
    obtain ⟨_, _, _, hinfo, -⟩ := derive_eq_ok hp
    rw [List.map_cons, List.map_cons, ih hps]
    exact congrArg (· :: _) (info_eq_ok hinfo).1

/-- Properties in an order of a record give siblings with distinct keys. -/
theorem nodup_keys_of_deriveFields {ps : List Parameter} {found : List Diagnostic}
    (hordered : fields.Ordered)
    (h : deriveFields defaultSort parent requiredNames fields = .ok (ps, found)) :
    (ps.map (·.jsonKey)).Nodup := by
  rw [keys_of_deriveFields h]
  refine List.Pairwise.map _ ?_ hordered
  exact fun f g hbefore hkey => hbefore.ne (Key.join_injective parent hkey)

/-- Whether nodes give parameters that settle into the same one. -/
def NodesAgree (defaultSort : Number) (node node' : Value) : Prop :=
  ∀ name key required, Agree (fun p q => settled defaultSort p = settled defaultSort q)
    (derive defaultSort name key node required) (derive defaultSort name key node' required)

/-- Whether properties give siblings that settle into the same list. -/
def FieldsAgree (defaultSort : Number) (fields fields' : Fields) : Prop :=
  ∀ parent requiredNames,
    Agree (fun ps qs => settledList defaultSort ps = settledList defaultSort qs)
      (deriveFields defaultSort parent requiredNames fields)
      (deriveFields defaultSort parent requiredNames fields')

theorem NodesAgree.refl (node : Value) : NodesAgree defaultSort node node := by
  intro name key required
  refine .refl ?_ _
  exact fun _ => rfl

theorem FieldsAgree.refl (fields : Fields) : FieldsAgree defaultSort fields fields := by
  intro parent requiredNames
  refine .refl ?_ _
  exact fun _ => rfl

theorem fieldsAgree_of_perm (h : fields.Perm fields') (hordered : fields.Ordered) :
    FieldsAgree defaultSort fields fields' := by
  intro parent requiredNames
  refine (agree_deriveFields_of_perm h).imp fun ps qs found hps hperm => ?_
  exact settledList_eq_of_perm defaultSort hperm (nodup_keys_of_deriveFields hordered hps)

theorem fieldsAgree_of_node {before after : Fields} {name : String} {node node' : Value}
    (h : NodesAgree defaultSort node node') :
    FieldsAgree defaultSort (before ++ (name, node) :: after)
      (before ++ (name, node') :: after) := by
  intro parent requiredNames
  have hmaps : Agree (fun ps qs => ps.map (settled defaultSort) = qs.map (settled defaultSort))
      (deriveFields defaultSort parent requiredNames (before ++ (name, node) :: after))
      (deriveFields defaultSort parent requiredNames (before ++ (name, node') :: after)) := by
    induction before with
    | nil =>
      rw [List.nil_append, List.nil_append, deriveFields, deriveFields]
      refine (h _ _ _).bind fun p q found found' hpq hfound => .of_bind fun made => ?_
      refine .ok ?_ (hfound.append_right made.2)
      rw [List.map_cons, List.map_cons, hpq]
    | cons f before ih =>
      rw [List.cons_append, List.cons_append, deriveFields, deriveFields]
      refine .of_bind fun made => ih.bind fun ps qs found found' hpq hfound => ?_
      refine .ok ?_ (hfound.append_left made.2)
      rw [List.map_cons, List.map_cons, hpq]
  exact hmaps.imp fun ps qs _ _ hpq => congrArg (sortSiblings defaultSort) hpq

section Nodes

variable {node node' : Value} {name key : String} {required : Bool}

theorem agree_deriveBelow (hhead : SameHead node node')
    (hown : FieldsAgree defaultSort (ownFields node) (ownFields node'))
    (hitems : FieldsAgree defaultSort (ownFields (node.member "items"))
      (ownFields (node'.member "items"))) :
    Agree (fun subs subs' =>
        subs.map (settledList defaultSort) = subs'.map (settledList defaultSort))
      (deriveBelow defaultSort key node) (deriveBelow defaultSort key node') := by
  have hmade {owner owner' : Value} (hshape : SameShape owner owner')
      (hfields : FieldsAgree defaultSort (ownFields owner) (ownFields owner')) :
      Agree (fun subs subs' =>
          subs.map (settledList defaultSort) = subs'.map (settledList defaultSort))
        ((deriveFields defaultSort key (Schema.requiredNames owner) (ownFields owner)).map
          fun made => (some made.1, made.2))
        ((deriveFields defaultSort key (Schema.requiredNames owner') (ownFields owner')).map
          fun made => (some made.1, made.2)) := by
    rw [hshape.requiredNames]
    exact (hfields key _).map fun _ _ hlists => congrArg some hlists
  unfold deriveBelow
  rw [hhead.kind]
  cases Kind.ofNode node with
  | object => exact hmade hhead.toSameShape hown
  | arrayOfObject =>
    simp only [owner?, items?, hhead.items.isObject]
    split_ifs
    · exact hmade hhead.items hitems
    · exact .ok rfl .nil
  | _ => exact .ok rfl .nil

theorem agree_deriveFurther (hhead : SameHead node node')
    (hfurther : NodesAgree defaultSort (node.member "additionalProperties")
      (node'.member "additionalProperties")) :
    Agree (fun extra extra' : Option Parameter =>
        extra.map (fun _ => (default : Parameter)) = extra'.map fun _ => default)
      (deriveFurther defaultSort name key node) (deriveFurther defaultSort name key node') := by
  have hmade : Agree (fun extra extra' : Option Parameter =>
        extra.map (fun _ => (default : Parameter)) = extra'.map fun _ => default)
      ((derive defaultSort name key (node.member "additionalProperties") false).map
        fun made => (some made.1, made.2))
      ((derive defaultSort name key (node'.member "additionalProperties") false).map
        fun made => (some made.1, made.2)) :=
    (hfurther name key false).map fun _ _ _ => rfl
  unfold deriveFurther
  rw [hhead.kind]
  cases Kind.ofNode node with
  | object | map =>
    simp only [furtherKeys?, valueSchema?, hhead.further]
    split_ifs
    · exact hmade
    · exact .ok rfl .nil
  | _ => exact .ok rfl .nil

theorem nodesAgree_of_parts (hhead : SameHead node node')
    (hown : FieldsAgree defaultSort (ownFields node) (ownFields node'))
    (hitems : FieldsAgree defaultSort (ownFields (node.member "items"))
      (ownFields (node'.member "items")))
    (hfurther : NodesAgree defaultSort (node.member "additionalProperties")
      (node'.member "additionalProperties")) : NodesAgree defaultSort node node' := by
  intro name key required
  rw [derive_eq, derive_eq, hhead.kind, info_eq_of_sameHead hhead, findings_eq_of_sameHead hhead]
  refine .of_bind fun info => .of_bind fun foundHere => ?_
  refine (agree_deriveBelow hhead hown hitems).bind fun subs subs' found found' hsubs hfound => ?_
  refine (agree_deriveFurther hhead hfurther).bind fun extra extra' _ _ hextra hfoundExtra => ?_
  refine .ok ?_ ((hfound.append_left foundHere).append hfoundExtra)
  rw [settled_eq, settled_eq]
  exact congrArg₂ (Parameter.mk info) hsubs hextra

/-- What schemas that differ in the order of properties have in common: what their own parameters
are made of, and what their properties and they themselves settle into. -/
structure SettlesAlike (defaultSort : Number) (node node' : Value) : Prop where
  head : SameHead node node'
  own : FieldsAgree defaultSort (ownFields node) (ownFields node')
  nodes : NodesAgree defaultSort node node'

/-- Nodes that differ in their properties alone settle alike if their properties do. -/
theorem settlesAlike_put_properties {fields props props' : Fields}
    (hprops : fields.get? "properties" = some (.record props))
    (hempty : props'.isEmpty = props.isEmpty) (h : FieldsAgree defaultSort props props') :
    SettlesAlike defaultSort (.record fields)
      (.record (fields.put "properties" (.record props'))) := by
  have hmember := member_put hprops (.record props')
  have hown : FieldsAgree defaultSort (ownFields (.record fields))
      (ownFields (.record (fields.put "properties" (.record props')))) := by
    rw [ownFields, member_of_get? hprops, ownFields, hmember, if_pos rfl]
    exact h
  have hhead := sameHead_put_properties hprops hempty
  refine ⟨hhead, hown, nodesAgree_of_parts hhead hown ?_ ?_⟩
  · rw [hmember, if_neg (by decide)]
    exact .refl _
  · rw [hmember, if_neg (by decide)]
    exact .refl _

/-- Nodes with the same properties settle alike if their items and further keys do. -/
theorem settlesAlike_of_parts (hhead : SameHead node node')
    (hproperties : node'.member "properties" = node.member "properties")
    (hitems : FieldsAgree defaultSort (ownFields (node.member "items"))
      (ownFields (node'.member "items")))
    (hfurther : NodesAgree defaultSort (node.member "additionalProperties")
      (node'.member "additionalProperties")) : SettlesAlike defaultSort node node' := by
  have hown : FieldsAgree defaultSort (ownFields node) (ownFields node') := by
    rw [ownFields, ownFields, hproperties]
    exact .refl _
  exact ⟨hhead, hown, nodesAgree_of_parts hhead hown hitems hfurther⟩

/-- The induction is on where the permuted properties stand: every node around them has one member
that differs, of which it is known that it settles alike. -/
theorem settlesAlike_of_permuted (defaultSort : Number) (h : Permuted node node') :
    SettlesAlike defaultSort node node' := by
  induction h with
  | properties hprops hperm hordered _ =>
    refine settlesAlike_put_properties hprops ?_ (fieldsAgree_of_perm hperm hordered)
    exact hperm.symm.isEmpty_eq
  | @property _ before _ _ _ _ hprops _ ih =>
    refine settlesAlike_put_properties hprops ?_ (fieldsAgree_of_node ih.nodes)
    cases before <;> rfl
  | part hname hnode _ ih =>
    have hmember := member_put hnode
    have hhead := sameHead_put_part hname hnode ih.head.toSameShape
    rcases hname with rfl | rfl
    · refine settlesAlike_of_parts hhead ?_ ?_ ?_
      · rw [hmember, if_neg (by decide)]
      · rw [hmember, if_pos rfl, member_of_get? hnode]
        exact ih.own
      · rw [hmember, if_neg (by decide)]
        exact .refl _
    · refine settlesAlike_of_parts hhead ?_ ?_ ?_
      · rw [hmember, if_neg (by decide)]
      · rw [hmember, if_neg (by decide)]
        exact .refl _
      · rw [hmember, if_pos rfl, member_of_get? hnode]
        exact ih.nodes

end Nodes

/-- The roots of reordered schemas settle into the same list. -/
theorem agree_deriveRoot (defaultSort : Number) {schema schema' : Value}
    (h : Reordered schema schema') :
    Agree (fun ps qs => settledList defaultSort ps = settledList defaultSort qs)
      (deriveRoot defaultSort schema) (deriveRoot defaultSort schema') := by
  induction h with
  | refl =>
    refine .refl ?_ _
    exact fun _ => rfl
  | @tail middle last _ hstep ih =>
    obtain ⟨hhead, hown, -⟩ := settlesAlike_of_permuted defaultSort hstep
    refine ih.trans (fun _ _ _ => Eq.trans) ?_
    rw [deriveRoot_eq, deriveRoot_eq, hhead.requiredNames]
    exact hown "" _

end Schema

namespace Rendering

open Schema Value Parameter

/-- If a schema gives a tree, so does one that has the properties of any nodes in another order: it
is walked over the same depths and parameters, apart from what is inside the parameters of further
keys, and comes with the same diagnostics up to their order. -/
theorem ofSchema_reordered {options : Options} {schema schema' : Value} {base : Rendering}
    (h : Reordered schema schema') (hbase : ofSchema options schema [] = .ok base) :
    ∃ base', ofSchema options schema' [] = .ok base'
      ∧ hollowVisits (walk base'.parameters) = hollowVisits (walk base.parameters)
      ∧ base'.diagnostics.Perm base.diagnostics := by
  obtain ⟨derived, hderived, hsorted⟩ := exists_derived hbase
  have hagree := agree_deriveRoot options.defaultSort h
  rw [hderived] at hagree
  generalize hderived' : deriveRoot options.defaultSort schema' = made at hagree
  cases hagree with
  | @ok _ derived' _ found' hlists hfound =>
    refine ⟨⟨arrange options.defaultSort derived', found'⟩, ?_, ?_, hfound.symm⟩
    · rw [ofSchema, hderived']
      rfl
    · rw [hsorted, ← walk_hollow, ← walk_hollow, hollow_arrange, hollow_arrange, hlists]

/-- Properties of the root and of a property in another order, with two that are no objects. -/
theorem ofSchema_reordered_twice :
    let node (properties : Fields) : Value := .record [("properties", .record properties)]
    let text : Value := .record [("type", .text "string")]
    let schema := node [("b", node [("y", .null), ("x", text)]), ("a", .list [])]
    let schema' := node [("a", .list []), ("b", node [("x", text), ("y", .null)])]
    Reordered schema schema'
      ∧ ∃ base base', ofSchema .defaults schema [] = .ok base
        ∧ ofSchema .defaults schema' [] = .ok base'
        ∧ hollowVisits (walk base'.parameters) = hollowVisits (walk base.parameters)
        ∧ base.diagnostics.map (·.jsonKey) = ["b.y", "a"]
        ∧ base'.diagnostics.map (·.jsonKey) = ["a", "b.y"] := by
  intro node text schema schema'
  have hget (props : Fields) :
      Fields.get? [("properties", .record props)] "properties" = some (.record props) := by
    simp [Fields.get?]
  have hput (props props' : Fields) :
      Fields.put [("properties", Value.record props)] "properties" (.record props')
        = [("properties", .record props')] := by
    simp [Fields.put, Fields.has]
  have hnode (f g : String × Value) (hfg : Fields.Before f.1 g.1) (hgf : Fields.Before g.1 f.1) :
      Permuted (node [f, g]) (node [g, f]) := by
    have h := Permuted.properties (hget [f, g]) (.swap g f []) (List.pairwise_pair.mpr hfg)
      (List.pairwise_pair.mpr hgf)
    rwa [hput] at h
  have hroot : Permuted schema
      (node [("a", .list []), ("b", node [("y", .null), ("x", text)])]) :=
    hnode _ _ (by simp [Fields.Before, arrayIndex?]) (by simp [Fields.Before, arrayIndex?])
  have hnested : Permuted (node [("a", .list []), ("b", node [("y", .null), ("x", text)])])
      schema' := by
    have hbelow := hnode ("y", .null) ("x", text) (by simp [Fields.Before, arrayIndex?])
      (by simp [Fields.Before, arrayIndex?])
    have h := Permuted.property (hget ([("a", .list [])] ++ ("b", _) :: [])) hbelow
    rwa [hput] at h
  have h : Reordered schema schema' := .tail (.single hroot) hnested
  obtain ⟨base, hbase⟩ : ∃ base, ofSchema .defaults schema [] = .ok base :=
    exists_ok (by decide +kernel)
  obtain ⟨base', hbase', hwalk, -⟩ := ofSchema_reordered h hbase
  refine ⟨h, base, base', hbase, hbase', hwalk, ?_, ?_⟩
  · have hfound : (ofSchema .defaults schema []).toOption.map
        (fun r => r.diagnostics.map (·.jsonKey)) = some ["b.y", "a"] := by
      decide +kernel
    rw [hbase] at hfound
    exact Option.some.inj hfound
  · have hfound : (ofSchema .defaults schema' []).toOption.map
        (fun r => r.diagnostics.map (·.jsonKey)) = some ["a", "b.y"] := by
      decide +kernel
    rw [hbase'] at hfound
    exact Option.some.inj hfound

end Rendering

end ParamForm
