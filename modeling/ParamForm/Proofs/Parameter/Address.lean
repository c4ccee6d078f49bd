import ParamForm.Condition.Visible
import ParamForm.Proofs.Condition.Reference
import ParamForm.Proofs.Parameter.Chain
import ParamForm.Proofs.Parameter.Siblings

/-!
# Keys as addresses

A parameter of a form stands at the path of a property if it ends a chain of parameters that belong
to the properties along that path (`Parameter.StandsAt`), and every parameter that is visited does.
Where no property name is empty or has a dot in it, the key of a parameter is an address in three
ways (`Parameter.keys_address`): its segments are the path, the search for it comes to the
parameter, and in a form's values it leads where the path leads.
-/

namespace ParamForm

namespace Value

/-- Where names lead from a value, one part of an object after another: nowhere as soon as there is
a name left and no object. -/
inductive Follows : Value → List String → Value → Prop
  | here (v : Value) : Follows v [] v
  | part {v w : Value} {name : String} {names : List String} :
    v.isObject = true → Follows (v.member name) names w → Follows v (name :: names) w
  | nowhere {v : Value} {name : String} {names : List String} :
    v.isObject = false → Follows v (name :: names) .absent

theorem member_of_not_isObject {v : Value} (h : v.isObject = false) (name : String) :
    v.member name = .absent := by
  cases v with
  | record fields => cases h
  | bytes bs => cases h
  | _ => rfl

theorem follow_absent (names : List String) : follow .absent names = .absent := by
  induction names with
  | nil => rfl
  | cons name names ih => exact ih

theorem follows_iff {v w : Value} {names : List String} :
    Follows v names w ↔ v.follow names = w := by
  constructor
  · intro h
    induction h with
    | here v => rfl
    | part _ _ ih => exact ih
    | @nowhere v name names hobject =>
      rw [follow, List.foldl_cons, member_of_not_isObject hobject]
      exact follow_absent names
  · rintro rfl
    induction names generalizing v with
    | nil => exact .here v
    | cons name names ih =>
      cases hobject : v.isObject with
      | true => exact .part hobject ih
      | false =>
        have hfollow : v.follow (name :: names) = .absent := by
          rw [follow, List.foldl_cons, member_of_not_isObject hobject]
          exact follow_absent names
        rw [hfollow]
        exact .nowhere hobject

end Value

namespace Parameter

open Schema Value

/-- Whether siblings belong to the properties of an owner at a path, each with the key of its own
path, and so on below them. -/
inductive Grown : List String → Value → List Parameter → Prop
  | nil {path : List String} {owner : Value} : Grown path owner []
  | cons {path : List String} {owner : Value} {f : String × Value} {p : Parameter}
    {ps : List Parameter} : f ∈ ownFields owner → p.jsonKey = Key.ofPath (path ++ [f.1]) →
      p.kind = Kind.ofNode f.2 → Grown (path ++ [f.1]) (childOwner f.2) p.children →
        Grown path owner ps → Grown path owner (p :: ps)

/-- Whether the parameters of a chain belong to the properties along some names, from an owner at a
path on: each has the key of the path up to it, and the kind of the property's node. -/
inductive Traces : List String → Value → List String → List Parameter → Prop
  | nil {path : List String} {owner : Value} : Traces path owner [] []
  | cons {path names : List String} {owner : Value} {f : String × Value} {p : Parameter}
    {chain : List Parameter} : f ∈ ownFields owner → p.jsonKey = Key.ofPath (path ++ [f.1]) →
      p.kind = Kind.ofNode f.2 → Traces (path ++ [f.1]) (childOwner f.2) names chain →
        Traces path owner (f.1 :: names) (p :: chain)

/-- Whether a parameter of a tree stands at a path of property names: the parameters from the top
down to it belong to the properties along the path. -/
def StandsAt (schema : Value) (ps : List Parameter) (names : List String) (p : Parameter) : Prop :=
  ∃ positions ancestors, chain? positions ps = some (ancestors ++ [p])
    ∧ Traces [] schema names (ancestors ++ [p])

variable {path names : List String} {owner : Value} {ps chain : List Parameter}

theorem grown_iff : Grown path owner ps ↔ ∀ p ∈ ps, ∃ f ∈ ownFields owner,
    p.jsonKey = Key.ofPath (path ++ [f.1]) ∧ p.kind = Kind.ofNode f.2
      ∧ Grown (path ++ [f.1]) (childOwner f.2) p.children := by
  induction ps with
  | nil => exact ⟨fun _ => List.forall_mem_nil _, fun _ => .nil⟩
  | cons p ps ih =>
    rw [List.forall_mem_cons, ← ih]
    constructor
    · rintro (_ | ⟨hf, hkey, hkind, hbelow, hrest⟩)
      exact ⟨⟨_, hf, hkey, hkind, hbelow⟩, hrest⟩
    · rintro ⟨⟨f, hf, hkey, hkind, hbelow⟩, hrest⟩
      exact .cons hf hkey hkind hbelow hrest

/-- The induction follows the properties: what is derived for those below a field grows from it. -/
theorem grown_deriveFields {defaultSort : Number} {fields : Fields} {found : List Diagnostic}
    (hfields : ∀ f ∈ fields, f ∈ ownFields owner)
    (h : deriveFields defaultSort (Key.ofPath path) (requiredNames owner) fields
      = .ok (ps, found)) : Grown path owner ps := by
  induction path, owner, fields using among.induct generalizing ps found with
  | case1 path owner =>
    rw [deriveFields] at h
    obtain ⟨rfl, -⟩ := Prod.mk.inj (Except.ok.inj h)
    exact .nil
  | case2 path owner name node rest ihBelow ihRest =>
    obtain ⟨p, foundHere, ps', foundAfter, hp, hps, rfl, -⟩ := deriveFields_cons_eq_ok h
    rw [List.forall_mem_cons] at hfields
    rw [← Key.ofPath_concat] at hp
    obtain ⟨_, _, _, -, -, hbelow, -⟩ := derive_eq_ok hp
    have hshows := shows_of_derive hp
    exact .cons hfields.1 hshows.jsonKey hshows.kind
      (ihBelow (fun _ hf => hf) (deriveBelow_eq_ok hbelow)) (ihRest hfields.2 hps)

theorem grown_arrange (defaultSort : Number) (h : Grown path owner ps) :
    Grown path owner (arrange defaultSort ps) := by
  induction ps using children_induction generalizing path owner with
  | step ps ih =>
    refine grown_iff.mpr fun q hq => ?_
    obtain ⟨p, hp, number, rfl⟩ := exists_of_mem_arrange defaultSort hq
    obtain ⟨f, hf, hkey, hkind, hbelow⟩ := grown_iff.mp h p hp
    have hinfo := info_arrangeBelow defaultSort p
    have hsameKey : (arrangeBelow defaultSort p).jsonKey = p.jsonKey :=
      congrArg ParameterInfo.jsonKey hinfo
    have hsameKind : (arrangeBelow defaultSort p).kind = p.kind :=
      congrArg ParameterInfo.kind hinfo
    have hchildren : ((arrangeBelow defaultSort p).withSort number).children
        = arrange defaultSort p.children := children_arrangeBelow defaultSort p
    refine ⟨f, hf, hsameKey.trans hkey, hsameKind.trans hkind, ?_⟩
    rw [hchildren]
    exact (ih p hp).1 hbelow

theorem traces_of_grown (h : Grown path owner ps) {positions : List Nat}
    (hchain : chain? positions ps = some chain) : ∃ names, Traces path owner names chain := by
  induction positions generalizing path owner ps chain with
  | nil =>
    obtain rfl := Option.some.inj hchain
    exact ⟨[], .nil⟩
  | cons i positions ih =>
    obtain ⟨p, below, hp, hbelow, rfl⟩ := chain?_cons_eq_some.mp hchain
    obtain ⟨f, hf, hkey, hkind, hgrown⟩ := grown_iff.mp h p (List.mem_of_getElem? hp)
    obtain ⟨names, hnames⟩ := ih hgrown hbelow
    exact ⟨f.1 :: names, .cons hf hkey hkind hnames⟩

theorem Traces.length_eq (h : Traces path owner names chain) : names.length = chain.length := by
  induction h with
  | nil => rfl
  | cons _ _ _ _ ih => rw [List.length_cons, List.length_cons, ih]

/-- The end of a chain has the key of a reached property. -/
theorem Traces.exists_reached {schema : Value} {ancestors : List Parameter} {p : Parameter}
    (hreached : ∀ f ∈ ownFields owner, Schema.Reached schema ⟨path, f.1, owner, f.2⟩)
    (h : Traces path owner names (ancestors ++ [p])) :
    ∃ q, Schema.Reached schema q ∧ q.path = path ++ names ∧ p.jsonKey = Key.ofPath q.path := by
  induction ancestors generalizing path owner names with
  | nil =>
    obtain _ | ⟨hf, hkey, -, hrest⟩ := h
    cases hrest
    exact ⟨_, hreached _ hf, rfl, hkey⟩
  | cons a ancestors ih =>
    obtain _ | @⟨_, names, _, f, _, _, hf, -, -, hrest⟩ := h
    obtain ⟨q, hq, hpath, hkey⟩ := ih (fun g hg => .child (hreached f hf) hg) hrest
    refine ⟨q, hq, ?_, hkey⟩
    rw [hpath, Property.path, List.append_assoc, List.singleton_append]

variable {options : Options} {schema : Value} {base : Rendering}

theorem grown_base (h : Rendering.ofSchema options schema [] = .ok base) :
    Grown [] schema base.parameters := by
  obtain ⟨derived, hderived, hsorted⟩ := Rendering.exists_derived h
  rw [deriveRoot_eq] at hderived
  have hgrown : Grown [] schema derived := grown_deriveFields (fun _ hf => hf) hderived
  rw [hsorted]
  exact grown_arrange _ hgrown

theorem standsAt_of_mem_walk (h : Rendering.ofSchema options schema [] = .ok base)
    {visit : Nat × Parameter} (hvisit : visit ∈ walk base.parameters) :
    ∃ names, StandsAt schema base.parameters names visit.2 ∧ names.length = visit.1 + 1 := by
  obtain ⟨positions, ancestors, hchain, hdepth⟩ := mem_walk_iff.mp hvisit
  obtain ⟨names, hnames⟩ := traces_of_grown (grown_base h) hchain
  refine ⟨names, ⟨positions, ancestors, hchain, hnames⟩, ?_⟩
  rw [hnames.length_eq, List.length_append, List.length_singleton, hdepth]

section Plain

variable (hplain : ∀ q ∈ properties schema, q.name ≠ "" ∧ '.' ∉ q.name.toList)
include hplain

theorem split_key_of_plain {q : Property} (hq : Schema.Reached schema q) :
    Key.split (Key.ofPath q.path) = q.path := by
  refine Key.split_ofPath (by simp [Property.path]) fun name hname => ?_
  obtain ⟨r, hr, rfl⟩ := exists_of_mem_path hq name hname
  exact hplain r hr

/-- The segments of the keys are the paths of the properties, of which no two are the same. -/
theorem nodup_keys_of_plain (hwell : schema.WellFormed)
    (h : Rendering.ofSchema options schema [] = .ok base) : (keys base.parameters).Nodup := by
  have hsplit : ((properties schema).map fun q => Key.ofPath q.path).map Key.split
      = (properties schema).map Property.path := by
    rw [List.map_map]
    exact List.map_congr_left fun q hq => split_key_of_plain hplain (mem_properties_iff.mp hq)
  have hpaths : ((keys base.parameters).map Key.split).Nodup := by
    rw [((keys_perm h).map Key.split).nodup_iff, hsplit]
    exact nodup_paths hwell
  exact hpaths.of_map

end Plain

/-- Where keys are distinct, the search for one comes to the parameter that has it. -/
theorem find?_of_nodup (hnodup : (keys ps).Nodup) {visit : Nat × Parameter}
    (hvisit : visit ∈ walk ps) : find? visit.2.jsonKey ps = some visit.2 := by
  have hfound : (find? visit.2.jsonKey ps).isSome := by
    rw [find?_isSome_iff, keys]
    exact List.mem_map_of_mem hvisit
  obtain ⟨target, htarget, hkey⟩ := exists_find? hfound
  rw [find?_eq_firstOf_walkBy (· + 1) _ 0 ps, firstOf] at htarget
  obtain ⟨other, hother, rfl⟩ := List.mem_map.mp (List.mem_of_find?_eq_some htarget)
  obtain rfl : other = visit := List.inj_on_of_nodup_map hnodup hother hvisit hkey
  rw [find?_eq_firstOf_walkBy (· + 1) _ 0 ps, firstOf, htarget]

/-- In a form of a schema whose property names are not empty and have no dot in them, the key of a
parameter leads along the path where the parameter stands: it is split into the path, it is found at
the parameter, and it reads from values what the path leads to. -/
theorem keys_address (hwell : schema.WellFormed)
    (hplain : ∀ q ∈ properties schema, q.name ≠ "" ∧ '.' ∉ q.name.toList)
    (h : Rendering.ofSchema options schema [] = .ok base) :
    (∀ visit ∈ walk base.parameters, ∃ names,
        StandsAt schema base.parameters names visit.2 ∧ names.length = visit.1 + 1)
      ∧ ∀ names p, StandsAt schema base.parameters names p →
        Key.split p.jsonKey = names
          ∧ find? p.jsonKey base.parameters = some p
          ∧ ∀ values v, Follows values names v ↔ values.readValue p.jsonKey = v := by
  refine ⟨fun visit hvisit => standsAt_of_mem_walk h hvisit, ?_⟩
  rintro names p ⟨positions, ancestors, hchain, htraces⟩
  obtain ⟨q, hq, hpath, hkey⟩ := htraces.exists_reached fun f hf => .root hf
  have hsplit : Key.split p.jsonKey = names := by
    rw [hkey, split_key_of_plain hplain hq, hpath, List.nil_append]
  have hvisit : (ancestors.length, p) ∈ walk base.parameters :=
    mem_walk_iff.mpr ⟨positions, ancestors, hchain, rfl⟩
  refine ⟨hsplit, find?_of_nodup (nodup_keys_of_plain hplain hwell h) hvisit, fun values v => ?_⟩
  rw [readValue, hsplit, follows_iff]

/-- A parameter below the items of an array, and two forms: one with an object where the array is,
and one with a list, in which the path leads nowhere. -/
theorem keys_address_of_row :
    let leaf : Value := .record [("type", .text "string")]
    let row : Value := .record [("required", .list [.text "b"]),
      ("properties", .record [("cell", leaf), ("b", .null)])]
    let rows : Value := .record [("type", .text "array"), ("items", row)]
    let schema : Value := .record [("required", .list [.text "rows"]),
      ("properties", .record [("a", .null), ("rows", rows)])]
    ∃ base p, Rendering.ofSchema .defaults schema [] = .ok base
      ∧ keys base.parameters = ["rows", "rows.b", "rows.cell", "a"]
      ∧ find? "rows.cell" base.parameters = some p
      ∧ StandsAt schema base.parameters ["rows", "cell"] p
      ∧ (Value.record [("rows", .record [("cell", .bool true)])]).readValue "rows.cell" = .bool true
      ∧ (Value.record [("rows", .list [.bool true])]).readValue "rows.cell" = .absent := by
  intro leaf row rows schema
  have hwell : schema.WellFormed := by
    simp [schema, rows, row, leaf, WellFormed, WellFormedFields, WellFormedItems, Fields.Ordered,
      Fields.Before, arrayIndex?]
  have hplain : ∀ q ∈ properties schema, q.name ≠ "" ∧ '.' ∉ q.name.toList := by
    have hnames : (properties schema).map Property.name = ["a", "rows", "cell", "b"] := by
      decide +kernel
    intro q hq
    have hname := List.mem_map_of_mem hq (f := Property.name)
    rw [hnames] at hname
    revert hname
    generalize q.name = name
    revert name
    decide
  obtain ⟨base, hbase⟩ : ∃ base, Rendering.ofSchema .defaults schema [] = .ok base :=
    exists_ok (by decide +kernel)
  have hkeys : (Rendering.ofSchema .defaults schema []).toOption.map (fun base =>
      keys base.parameters) = some ["rows", "rows.b", "rows.cell", "a"] := by
    decide +kernel
  rw [hbase] at hkeys
  replace hkeys : keys base.parameters = ["rows", "rows.b", "rows.cell", "a"] :=
    Option.some.inj hkeys
  obtain ⟨visit, hvisit, hkey⟩ : ∃ visit ∈ walk base.parameters, visit.2.jsonKey = "rows.cell" := by
    rw [← List.mem_map, ← keys, hkeys]
    decide
  obtain ⟨hvisits, haddress⟩ := keys_address hwell hplain hbase
  obtain ⟨names, hstands, -⟩ := hvisits visit hvisit
  obtain ⟨hsplit, hfind, hread⟩ := haddress names visit.2 hstands
  rw [hkey] at hsplit hfind hread
  obtain rfl : ["rows", "cell"] = names := hsplit
  exact ⟨base, visit.2, hbase, hkeys, hfind, hstands,
    (hread _ _).mp (.part rfl (.part rfl (.here _))), (hread _ _).mp (.part rfl (.nowhere rfl))⟩

end Parameter

end ParamForm
