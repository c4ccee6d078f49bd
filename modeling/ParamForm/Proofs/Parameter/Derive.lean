import Mathlib.Data.List.Forall2
import ParamForm.Proofs.Failure
import ParamForm.Proofs.Parameter.Walk
import ParamForm.Proofs.Schema.Key
import ParamForm.Proofs.Schema.Property

/-!
# The parameters of a schema

A derived parameter is made of its own data, its sub-parameters and the parameter of its further
keys (`Schema.derive_eq_ok`). The walk over the parameters of a schema visits one parameter for each
property of the schema and nothing else, in the order of the properties (`Schema.walk_deriveRoot`).
-/

namespace ParamForm.Schema

open Value

variable {defaultSort : Number} {name key parent : String} {node owner : Value} {required : Bool}
  {p : Parameter} {ps : List Parameter} {found : List Diagnostic}

/-- Sub-parameters are derived from the node that owns the children, except where that has no
properties. -/
theorem owner?_eq_or (node : Value) :
    owner? (Kind.ofNode node) node = some (childOwner node)
      ∨ (owner? (Kind.ofNode node) node = none ∧ ownFields (childOwner node) = []) := by
  unfold childOwner
  cases hkind : Kind.ofNode node with
  | object => exact .inl rfl
  | arrayOfObject =>
    cases hobject : (node.member "items").isObject with
    | true => exact .inl (if_pos hobject)
    | false => exact .inr ⟨by simp [owner?, items?, hobject], ownFields_of_not_isObject hobject⟩
  | _ => exact .inr ⟨rfl, rfl⟩

theorem contains_requiredNames_iff :
    (requiredNames owner).contains name = true
      ↔ ∃ names, owner.member "required" = .list names ∧ .text name ∈ names := by
  unfold requiredNames
  rw [List.contains_iff_mem]
  constructor
  · intro h
    cases hlist : owner.member "required" with
    | list names =>
      rw [hlist] at h
      obtain ⟨v, hv, htext⟩ := List.mem_filterMap.mp h
      cases v with
      | text s =>
        obtain rfl := Option.some.inj htext
        exact ⟨names, rfl, hv⟩
      | _ => cases htext
    | _ =>
      rw [hlist] at h
      cases h
  · rintro ⟨names, hlist, hmem⟩
    rw [hlist]
    exact List.mem_filterMap.mpr ⟨_, hmem, rfl⟩

/-- The sub-parameters of a node, none without a node that owns some. -/
def deriveBelow (defaultSort : Number) (key : String) (node : Value) :
    Except Failure (Option (List Parameter) × List Diagnostic) :=
  match owner? (Kind.ofNode node) node with
  | none => .ok (none, [])
  | some owner =>
    (deriveFields defaultSort key (requiredNames owner) (ownFields owner)).map
      fun made => (some made.1, made.2)

/-- The parameter of the further keys of a node, where it has any. -/
def deriveFurther (defaultSort : Number) (name key : String) (node : Value) :
    Except Failure (Option Parameter × List Diagnostic) :=
  match furtherKeys? (Kind.ofNode node) node with
  | none => .ok (none, [])
  | some further =>
    (derive defaultSort name key further false).map fun made => (some made.1, made.2)

/-- A derivation in its steps: the data, the finding, what is below, the further keys. The further
keys come in the same way whatever is below. -/
theorem derive_eq (name key : String) (node : Value) (required : Bool) :
    derive defaultSort name key node required = (do
      let info ← info defaultSort name key node required
      let foundHere ← findings (Kind.ofNode node) key node
      let below ← deriveBelow defaultSort key node
      let further ← deriveFurther defaultSort name key node
      .ok (⟨info, below.1, further.1⟩, foundHere ++ below.2 ++ further.2)) := by
  rw [derive]
  refine bind_congr fun info => bind_congr fun foundHere => ?_
  unfold deriveBelow deriveFurther
  simp only [← getD_properties?, bind, Except.bind]
  split
  case' h_1 howner => rw [howner]
  case' h_2 owner howner =>
    rw [howner]
    split
    case' h_1 hfields => simp only [hfields, Option.getD_none, deriveFields, Except.map]
    case' h_2 fields hfields =>
      simp only [hfields, Option.getD_some, Except.map]
      cases deriveFields defaultSort key (requiredNames owner) fields
      case error failure => rfl
      case' ok made => dsimp only
  all_goals
    split
    case h_1 hfurther => rw [hfurther]
    case h_2 further hfurther =>
      rw [hfurther]
      dsimp only [Except.map]
      cases derive defaultSort name key further false <;> rfl

theorem derive_eq_ok (h : derive defaultSort name key node required = .ok (p, found)) :
    ∃ foundHere foundBelow foundFurther,
      info defaultSort name key node required = .ok p.info
        ∧ findings (Kind.ofNode node) key node = .ok foundHere
        ∧ deriveBelow defaultSort key node = .ok (p.subParameters, foundBelow)
        ∧ deriveFurther defaultSort name key node = .ok (p.additionalParameter, foundFurther)
        ∧ found = foundHere ++ foundBelow ++ foundFurther := by
  rw [derive_eq] at h
  obtain ⟨info, hinfo, h⟩ := exists_ok_of_bind h
  obtain ⟨foundHere, hfound, h⟩ := exists_ok_of_bind h
  obtain ⟨below, hbelow, h⟩ := exists_ok_of_bind h
  obtain ⟨further, hfurther, h⟩ := exists_ok_of_bind h
  obtain ⟨rfl, rfl⟩ := Prod.mk.inj (Except.ok.inj h)
  exact ⟨foundHere, below.2, further.2, hinfo, hfound, hbelow, hfurther, rfl⟩

theorem deriveFields_cons_eq_ok {requiredNames : List String} {rest : Fields}
    (h : deriveFields defaultSort parent requiredNames ((name, node) :: rest) = .ok (ps, found)) :
    ∃ p foundHere ps' foundAfter,
      derive defaultSort name (Key.join parent name) node (requiredNames.contains name)
          = .ok (p, foundHere)
        ∧ deriveFields defaultSort parent requiredNames rest = .ok (ps', foundAfter)
        ∧ ps = p :: ps' ∧ found = foundHere ++ foundAfter := by
  rw [deriveFields] at h
  obtain ⟨⟨p, foundHere⟩, hp, h⟩ := exists_ok_of_bind h
  obtain ⟨⟨ps', foundAfter⟩, hps, h⟩ := exists_ok_of_bind h
  obtain ⟨rfl, rfl⟩ := Prod.mk.inj (Except.ok.inj h)
  exact ⟨p, foundHere, ps', foundAfter, hp, hps, rfl, rfl⟩

theorem deriveBelow_eq_ok {subs : Option (List Parameter)}
    (h : deriveBelow defaultSort key node = .ok (subs, found)) :
    deriveFields defaultSort key (requiredNames (childOwner node)) (ownFields (childOwner node))
      = .ok (subs.getD [], found) := by
  unfold deriveBelow at h
  rcases owner?_eq_or node with howner | ⟨howner, hfields⟩
  · rw [howner] at h
    obtain ⟨made, hmade, heq⟩ := exists_ok_of_map h
    obtain ⟨rfl, rfl⟩ := Prod.mk.inj heq
    exact hmade
  · rw [howner] at h
    obtain ⟨rfl, rfl⟩ := Prod.mk.inj (Except.ok.inj h)
    rw [hfields, deriveFields, Option.getD_none]

/-- The one way in which a derivation goes to further keys: it comes to their schema, if there is
one. -/
theorem deriveFurther_eq_ok {extra : Option Parameter}
    (h : deriveFurther defaultSort name key node = .ok (extra, found)) :
    (furtherKeys? (Kind.ofNode node) node = none ∧ extra = none ∧ found = [])
      ∨ ∃ further v, furtherKeys? (Kind.ofNode node) node = some further
        ∧ derive defaultSort name key further false = .ok (v, found) ∧ extra = some v := by
  unfold deriveFurther at h
  cases hkeys : furtherKeys? (Kind.ofNode node) node with
  | none =>
    rw [hkeys] at h
    obtain ⟨rfl, rfl⟩ := Prod.mk.inj (Except.ok.inj h)
    exact .inl ⟨rfl, rfl, rfl⟩
  | some further =>
    rw [hkeys] at h
    obtain ⟨⟨v, foundFurther⟩, hmade, heq⟩ := exists_ok_of_map h
    obtain ⟨rfl, rfl⟩ := Prod.mk.inj heq
    exact .inr ⟨further, v, rfl, hmade, rfl⟩

/-- The data of a node's parameter: the widget that its kind, format or item type gives, and what
the node itself says. -/
theorem exists_widget_of_info {made : ParameterInfo}
    (h : info defaultSort name key node required = .ok made) :
    ∃ w, Widget.ofNode? (Kind.ofNode node) node = some w ∧ made =
      { jsonKey := key, label := (nonemptyText? node "title").getD name,
        description := nonemptyText? node "description", uiType := w, kind := Kind.ofNode node,
        validate := ⟨required, constraints node⟩, conditions := [], sort := defaultSort,
        disable := none, style := none, subParameterGroupOption := none,
        additional := (furtherKeys? (Kind.ofNode node) node).map fun _ => true, others := [] } := by
  have hadditional : (if (Kind.ofNode node = .object ∨ Kind.ofNode node = .map)
        ∧ (valueSchema? node).isSome then some true else none)
      = (furtherKeys? (Kind.ofNode node) node).map fun _ => true := by
    cases Kind.ofNode node <;> cases hvalue : valueSchema? node <;> simp [furtherKeys?, hvalue]
  unfold info at h
  cases hwidget : Widget.ofNode? (Kind.ofNode node) node with
  | none => simp [hwidget] at h
  | some w =>
    simp only [hwidget, Except.ok.injEq, hadditional] at h
    exact ⟨w, rfl, h.symm⟩

theorem info_eq_ok {made : ParameterInfo}
    (h : info defaultSort name key node required = .ok made) :
    made.jsonKey = key ∧ made.kind = Kind.ofNode node ∧ made.sort = defaultSort
      ∧ made.conditions = [] ∧ made.validate = ⟨required, constraints node⟩ := by
  obtain ⟨w, -, rfl⟩ := exists_widget_of_info h
  exact ⟨rfl, rfl, rfl, rfl, rfl⟩

/-- Whether a visit is to the parameter that a property gives. -/
structure Shows (defaultSort : Number) (visit : Nat × Parameter) (q : Property) : Prop where
  depth : visit.1 = q.enclosing.length
  jsonKey : visit.2.jsonKey = Key.ofPath q.path
  kind : visit.2.kind = Kind.ofNode q.node
  sort : visit.2.info.sort = defaultSort
  conditions : visit.2.info.conditions = []
  required : visit.2.required = true ↔ q.IsRequired

theorem shows_of_derive {path : List String}
    (h : derive defaultSort name (Key.ofPath (path ++ [name])) node
      ((requiredNames owner).contains name) = .ok (p, found)) :
    Shows defaultSort (path.length, p) ⟨path, name, owner, node⟩ := by
  obtain ⟨_, _, _, hinfo, -⟩ := derive_eq_ok h
  obtain ⟨hkey, hkind, hsort, hconditions, hvalidate⟩ := info_eq_ok hinfo
  refine ⟨rfl, hkey, hkind, hsort, hconditions, ?_⟩
  rw [Parameter.required, hvalidate]
  exact contains_requiredNames_iff

/-- The induction follows the properties: what stands below a field belongs to the sub-parameters of
the field's parameter. -/
theorem walkBy_deriveFields {path : List String} {fields : List (String × Value)}
    (h : deriveFields defaultSort (Key.ofPath path) (requiredNames owner) fields
      = .ok (ps, found)) :
    List.Forall₂ (Shows defaultSort) (Parameter.walkBy (· + 1) path.length ps)
      (among path owner fields) := by
  induction path, owner, fields using among.induct generalizing ps found with
  | case1 path owner =>
    rw [deriveFields] at h
    obtain ⟨rfl, -⟩ := Prod.mk.inj (Except.ok.inj h)
    rw [Parameter.walkBy, among]
    exact .nil
  | case2 path owner name node rest ihBelow ihRest =>
    obtain ⟨p, foundHere, ps', foundAfter, hp, hps, rfl, -⟩ := deriveFields_cons_eq_ok h
    rw [← Key.ofPath_concat] at hp
    obtain ⟨_, _, _, -, -, hbelow, -⟩ := derive_eq_ok hp
    have hchildren := ihBelow (deriveBelow_eq_ok hbelow)
    rw [List.length_append, List.length_singleton] at hchildren
    rw [among, Parameter.walkBy, Parameter.walkOneBy_eq_cons, Parameter.walkSubsBy_eq_children]
    exact .cons (shows_of_derive hp) (List.rel_append hchildren (ihRest hps))

theorem deriveRoot_eq (defaultSort : Number) (schema : Value) :
    deriveRoot defaultSort schema
      = deriveFields defaultSort "" (requiredNames schema) (ownFields schema) := by
  rw [← getD_properties?, deriveRoot]
  cases properties? schema with
  | none => rw [Option.getD_none, deriveFields]
  | some fields => rw [Option.getD_some]

theorem shows_walk {schema : Value} (h : deriveRoot defaultSort schema = .ok (ps, found)) :
    List.Forall₂ (Shows defaultSort) (Parameter.walk ps) (properties schema) := by
  rw [deriveRoot_eq] at h
  have hshows : List.Forall₂ (Shows defaultSort)
      (Parameter.walkBy (· + 1) ([] : List String).length ps) (properties schema) :=
    walkBy_deriveFields h
  exact hshows

theorem exists_shows {schema : Value} (h : deriveRoot defaultSort schema = .ok (ps, found)) :
    ∀ visit ∈ Parameter.walk ps, ∃ q, Shows defaultSort visit q := by
  have hshows := (shows_walk h).imp fun visit q hq =>
    show (∃ q, Shows defaultSort visit q) ∧ Shows defaultSort visit q from ⟨⟨q, hq⟩, hq⟩
  exact ((List.forall₂_and_left _ _).mp hshows).1

/-- The walk over the parameters of a schema visits one parameter for each property and no other, in
the order of the properties, which are those that are reached from the root. -/
theorem walk_deriveRoot {schema : Value} (h : deriveRoot defaultSort schema = .ok (ps, found)) :
    List.Forall₂ (Shows defaultSort) (Parameter.walk ps) (properties schema)
      ∧ (∀ q, q ∈ properties schema ↔ Reached schema q)
      ∧ (schema.WellFormed → (properties schema).Pairwise Property.Before) :=
  ⟨shows_walk h, fun _ => mem_properties_iff, before_properties⟩

/-- A schema with a list of objects, allowed values beside properties, and nodes that are no
objects. -/
theorem walk_deriveRoot_nested :
    let cell : Value := .record [("properties", .record [("10", .null), ("b", .text "string")]),
      ("required", .list [.number (.whole 10), .text "b"])]
    let schema : Value := .record
      [("properties", .record
        [("rows", .record [("type", .text "array"), ("items", cell)]),
          ("mode", .record [("enum", .list [.bool true]), ("properties", .record [("x", .null)])]),
          ("", .record [("properties", .record [("c.d", .list [])])])]),
        ("required", .list [.text "mode", .text "b"])]
    ∃ ps found, deriveRoot (.whole 7) schema = .ok (ps, found)
      ∧ List.Forall₂ (Shows (.whole 7)) (Parameter.walk ps) (properties schema)
      ∧ (properties schema).map Property.path
        = [["rows"], ["rows", "10"], ["rows", "b"], ["mode"], [""], ["", "c.d"]]
      ∧ (Parameter.walk ps).map (fun visit => (visit.1, visit.2.jsonKey, visit.2.required))
        = [(0, "rows", false), (1, "rows.10", false), (1, "rows.b", true), (0, "mode", true),
          (0, "", false), (1, "c.d", false)] := by
  intro cell schema
  obtain ⟨⟨ps, found⟩, h⟩ : ∃ made, deriveRoot (.whole 7) schema = .ok made :=
    exists_ok (by decide +kernel)
  refine ⟨ps, found, h, (walk_deriveRoot h).1, by decide +kernel, ?_⟩
  have hvisits : (deriveRoot (.whole 7) schema).toOption.map (fun made =>
      (Parameter.walk made.1).map (fun visit => (visit.1, visit.2.jsonKey, visit.2.required)))
        = some [(0, "rows", false), (1, "rows.10", false), (1, "rows.b", true), (0, "mode", true),
          (0, "", false), (1, "c.d", false)] := by
    decide +kernel
  rw [h] at hvisits
  exact Option.some.inj hvisits

end ParamForm.Schema
