import Mathlib.Logic.Relation
import ParamForm.Proofs.Lookup
import ParamForm.Proofs.Schema.Node

/-!
# Properties in another order

A schema that was written down with properties in another order (`Schema.Reordered`): the properties
of one node at a time are permuted, be it the root, a property, or the items or the further keys of
a node. Of a node itself this changes nothing that its own parameter is made of
(`Schema.info_eq_of_sameHead`).
-/

namespace ParamForm

namespace Fields

/-- The value of a name that is there is replaced, and no other one. -/
theorem get?_put {fields : Fields} {name : String} {w : Value} (h : fields.get? name = some w)
    (v : Value) (other : String) :
    (fields.put name v).get? other = if other = name then some v else fields.get? other := by
  have hhas : fields.has name = true := by
    obtain ⟨f, hf, hname⟩ := List.lookup_isSome_iff.mp (Option.isSome_of_eq_some h)
    exact List.any_eq_true.mpr ⟨f, hf, BEq.symm hname⟩
  rw [put, if_pos hhas, get?, lookup_replaced, get?]
  split_ifs with hother
  · rw [hother, ← get?, h, Option.map_some]
  · rfl

end Fields

theorem Value.member_put {fields : Fields} {name : String} {w : Value}
    (h : fields.get? name = some w) (v : Value) (other : String) :
    (Value.record (fields.put name v)).member other
      = if other = name then v else (Value.record fields).member other := by
  rw [member, entries, Fields.get, Fields.get?_put h, member, entries, Fields.get]
  split_ifs <;> rfl

theorem Value.member_of_get? {fields : Fields} {name : String} {w : Value}
    (h : fields.get? name = some w) : (Value.record fields).member name = w := by
  rw [member, entries, Fields.get, h, Option.getD_some]

namespace Schema

open Value

/-- Whether two nodes differ in the order of the properties of one node: of the node itself, or of
one in a property of it, in its items or in its further keys. -/
inductive Permuted : Value → Value → Prop
  | properties {fields props props' : Fields} :
    fields.get? "properties" = some (.record props) → props.Perm props' → props.Ordered →
      props'.Ordered →
        Permuted (.record fields) (.record (fields.put "properties" (.record props')))
  | property {fields before after : Fields} {name : String} {node node' : Value} :
    fields.get? "properties" = some (.record (before ++ (name, node) :: after)) →
      Permuted node node' → Permuted (.record fields)
        (.record (fields.put "properties" (.record (before ++ (name, node') :: after))))
  | part {fields : Fields} {name : String} {node node' : Value} :
    name = "items" ∨ name = "additionalProperties" → fields.get? name = some node →
      Permuted node node' → Permuted (.record fields) (.record (fields.put name node'))

/-- Whether two schemas differ in the order of properties alone. -/
def Reordered : Value → Value → Prop :=
  Relation.ReflTransGen Permuted

/-- Whether two values agree in what a node shows of its own properties and items. -/
structure SameShape (node node' : Value) : Prop where
  isObject : node'.isObject = node.isObject
  member : ∀ name, name ≠ "properties" → name ≠ "items" → name ≠ "additionalProperties" →
    node'.member name = node.member name
  hasProperties : hasProperties node' = hasProperties node

/-- Whether two nodes agree in all that their own parameters are made of. -/
structure SameHead (node node' : Value) : Prop extends SameShape node node' where
  items : SameShape (node.member "items") (node'.member "items")
  further : (node'.member "additionalProperties").isObject
    = (node.member "additionalProperties").isObject

variable {node node' : Value}

theorem SameShape.refl (node : Value) : SameShape node node :=
  ⟨rfl, fun _ _ _ _ => rfl, rfl⟩

theorem SameShape.type (h : SameShape node node') : node'.member "type" = node.member "type" :=
  h.member "type" (by decide) (by decide) (by decide)

theorem SameShape.hasType (h : SameShape node node') (name : String) :
    Schema.hasType node' name = Schema.hasType node name := by
  rw [Schema.hasType, h.type, Schema.hasType]

theorem SameShape.isObjectShaped (h : SameShape node node') :
    isObjectShaped node' = isObjectShaped node := by
  rw [Schema.isObjectShaped, h.type, h.hasType, h.hasProperties, Schema.isObjectShaped]

theorem SameShape.isScalar (h : SameShape node node') :
    Schema.isScalar node' = Schema.isScalar node := by
  rw [Schema.isScalar, funext h.hasType, Schema.isScalar]

theorem SameShape.requiredNames (h : SameShape node node') :
    Schema.requiredNames node' = Schema.requiredNames node := by
  rw [Schema.requiredNames, h.member "required" (by decide) (by decide) (by decide),
    Schema.requiredNames]

theorem SameHead.items? (h : SameHead node node') :
    Option.Rel SameShape (Schema.items? node) (Schema.items? node') := by
  simp only [Schema.items?, h.items.isObject]
  split_ifs
  · exact .some h.items
  · exact .none

theorem SameHead.isSome_valueSchema? (h : SameHead node node') :
    (valueSchema? node').isSome = (valueSchema? node).isSome := by
  simp only [valueSchema?, h.further]
  split_ifs <;> rfl

theorem ofItems_eq_of_rel {items? items'? : Option Value}
    (h : Option.Rel SameShape items? items'?) : Kind.ofItems items'? = Kind.ofItems items? := by
  cases h with
  | none => rfl
  | some h => simp only [Kind.ofItems, h.isObjectShaped, h.isScalar]

theorem SameHead.kind (h : SameHead node node') : Kind.ofNode node' = Kind.ofNode node := by
  simp only [Kind.ofNode, h.isObject, h.isObjectShaped, h.type, h.isSome_valueSchema?,
    ofItems_eq_of_rel h.items?, h.member "enum" (by decide) (by decide) (by decide)]

theorem SameHead.widget (h : SameHead node node') (kind : Kind) :
    Widget.ofNode? kind node' = Widget.ofNode? kind node := by
  cases kind with
  | string =>
    simp only [Widget.ofNode?, h.member "format" (by decide) (by decide) (by decide)]
  | arrayOfScalar =>
    have hitems := h.items?
    simp only [Widget.ofNode?]
    generalize Schema.items? node = items?, Schema.items? node' = items'? at hitems
    cases hitems with
    | none => rfl
    | some hitems => simp only [hitems.type]
  | _ => rfl

theorem SameShape.constraints (h : SameShape node node') :
    Schema.constraints node' = Schema.constraints node := by
  simp (disch := decide) only [Schema.constraints, h.member]

/-- Nodes that agree in what their parameters are made of give parameters with the same data. -/
theorem info_eq_of_sameHead (h : SameHead node node') (defaultSort : Number) (name key : String)
    (required : Bool) :
    info defaultSort name key node' required = info defaultSort name key node required := by
  have htexts (field : String) (hfield : field = "title" ∨ field = "description") :
      nonemptyText? node' field = nonemptyText? node field := by
    rcases hfield with rfl | rfl <;> simp (disch := decide) only [nonemptyText?, h.member]
  simp only [info, h.kind, h.widget, h.constraints, h.isSome_valueSchema?,
    htexts "title" (.inl rfl), htexts "description" (.inr rfl)]

theorem findings_eq_of_sameHead (h : SameHead node node') (kind : Kind) (key : String) :
    findings kind key node' = findings kind key node := by
  simp only [findings, fallbackMessage?, h.isObject, h.type]

section Put

variable {fields : Fields}

theorem sameHead_put_properties {props props' : Fields}
    (h : fields.get? "properties" = some (.record props))
    (hempty : props'.isEmpty = props.isEmpty) :
    SameHead (.record fields) (.record (fields.put "properties" (.record props'))) := by
  have hmember := member_put h (.record props')
  have hbefore := member_of_get? h
  constructor
  · constructor
    · rfl
    · intro name hname _ _
      rw [hmember, if_neg hname]
    · simp only [hasProperties, properties?, hmember, hbefore, if_true, isObject, entries,
        Option.any_some, hempty]
  · rw [hmember, if_neg (by decide)]
    exact .refl _
  · rw [hmember, if_neg (by decide)]

/-- Items or further keys are replaced by a node of the same shape. -/
theorem sameHead_put_part {name : String} {node node' : Value}
    (hname : name = "items" ∨ name = "additionalProperties") (h : fields.get? name = some node)
    (hshape : SameShape node node') :
    SameHead (.record fields) (.record (fields.put name node')) := by
  have hmember := member_put h node'
  have hbefore := member_of_get? h
  constructor
  · constructor
    · rfl
    · intro other _ hitems hfurther
      have hother : other ≠ name := by rcases hname with rfl | rfl <;> assumption
      rw [hmember, if_neg hother]
    · have hproperties : "properties" ≠ name := by rcases hname with rfl | rfl <;> decide
      simp only [hasProperties, properties?, hmember, if_neg hproperties]
  · rw [hmember]
    split_ifs with hitems
    · rw [hitems, hbefore]
      exact hshape
    · exact .refl _
  · rw [hmember]
    split_ifs with hfurther
    · rw [hfurther, hbefore, hshape.isObject]
    · rfl

end Put

end Schema

end ParamForm
