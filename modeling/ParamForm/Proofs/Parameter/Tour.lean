import ParamForm.Proofs.Parameter.Step

/-!
# Tours of derived trees

A tour of a tree (`Parameter.tour`) comes to every parameter, those of further keys included: to a
parameter first, then to its sub-parameters, then to the parameter of its further keys. The
diagnostics of a derivation are one for each parameter of kind `fallback` that a tour of the tree
comes to, in the same order (`Schema.found_deriveRoot`).
-/

namespace ParamForm

namespace Parameter

mutual

/-- A parameter, then those below it, then those of its further keys. -/
def tourOne : Parameter → List Parameter
  | ⟨info, subs, extra⟩ => ⟨info, subs, extra⟩ :: (tourSubs subs ++ tourExtra extra)

/-- The parameters of a tree, those of further keys included. -/
def tour : List Parameter → List Parameter
  | [] => []
  | p :: ps => tourOne p ++ tour ps

/-- The tour through sub-parameters, if there are any. -/
def tourSubs : Option (List Parameter) → List Parameter
  | none => []
  | some ps => tour ps

/-- The tour through a value parameter, if there is one. -/
def tourExtra : Option Parameter → List Parameter
  | none => []
  | some p => tourOne p

end

theorem tourOne_eq (p : Parameter) :
    tourOne p = p :: (tour p.children ++ tourExtra p.additionalParameter) := by
  obtain ⟨info, subs, extra⟩ := p
  rw [tourOne, children]
  cases subs with
  | none => rw [tourSubs, Option.getD_none, tour]
  | some ps => rw [tourSubs, Option.getD_some]

theorem mem_tour {q : Parameter} {ps : List Parameter} :
    q ∈ tour ps ↔ ∃ p ∈ ps, q ∈ tourOne p := by
  induction ps with
  | nil => simp [tour]
  | cons p ps ih => rw [tour, List.mem_append, ih, List.exists_mem_cons_iff]

theorem mem_tourOne {q p : Parameter} :
    q ∈ tourOne p
      ↔ q = p ∨ q ∈ tour p.children ∨ ∃ v ∈ p.additionalParameter, q ∈ tourOne v := by
  rw [tourOne_eq, List.mem_cons, List.mem_append]
  refine or_congr_right (or_congr_right ?_)
  cases p.additionalParameter with
  | none => simp [tourExtra]
  | some v => simp [tourExtra]

end Parameter

namespace Schema

open Parameter

/-- What a diagnostic says, apart from its message. -/
def subject (d : Diagnostic) : Code × Severity × String :=
  (d.code, d.severity, d.jsonKey)

/-- What is said of those parameters of a tour that are of kind `fallback`. -/
def fallbackSubjects (toured : List Parameter) : List (Code × Severity × String) :=
  (toured.filter (·.kind = .fallback)).map fun p => (.fallbackNode, .warning, p.jsonKey)

theorem fallbackSubjects_append (toured after : List Parameter) :
    fallbackSubjects (toured ++ after) = fallbackSubjects toured ++ fallbackSubjects after := by
  rw [fallbackSubjects, List.filter_append, List.map_append, fallbackSubjects, fallbackSubjects]

theorem fallbackSubjects_of_madeEach {fields : Fields} {ps : List Parameter}
    {found : List Diagnostic}
    (h : MadeEach (fun _ p found => found.map subject = fallbackSubjects (tourOne p))
      fields ps found) : found.map subject = fallbackSubjects (tour ps) := by
  induction h with
  | nil => rfl
  | cons hp _ ih => rw [List.map_append, hp, ih, tour, fallbackSubjects_append]

theorem fallbackSubjects_of_madeFurther {further : Option Value} {extra : Option Parameter}
    {found : List Diagnostic}
    (h : MadeFurther (fun _ p found => found.map subject = fallbackSubjects (tourOne p))
      further extra found) : found.map subject = fallbackSubjects (tourExtra extra) := by
  cases h with
  | none => rfl
  | some hp => exact hp

/-- A node reports itself exactly if its kind is `fallback`. -/
theorem subject_findings {key : String} {node : Value} {p : Parameter}
    {foundHere : List Diagnostic} (hkey : p.jsonKey = key) (hkind : p.kind = Kind.ofNode node)
    (h : findings (Kind.ofNode node) key node = .ok foundHere) :
    foundHere.map subject = fallbackSubjects [p] := by
  rw [← hkind] at h
  unfold fallbackSubjects
  cases hp : p.kind with
  | fallback =>
    rw [hp, findings] at h
    split at h
    · obtain rfl := Except.ok.inj h
      simp [hp, hkey, subject, Diagnostic.severity, Code.severity]
    · cases h
  | _ =>
    rw [hp] at h
    obtain rfl := Except.ok.inj h
    simp [hp]

/-- A derivation reports a warning of each parameter of kind `fallback` that a tour of the tree
comes to, in this order, under the key of that parameter, and nothing else. -/
theorem found_deriveRoot {defaultSort : Number} {schema : Value} {ps : List Parameter}
    {found : List Diagnostic} (h : deriveRoot defaultSort schema = .ok (ps, found)) :
    found.map (fun d => (d.code, d.severity, d.jsonKey))
      = ((tour ps).filter (·.kind = .fallback)).map
        fun p => (.fallbackNode, .warning, p.jsonKey) := by
  refine fallbackSubjects_of_madeEach (madeEach_deriveRoot ?_ h)
  intro name key node required p foundHere foundBelow foundFurther hinfo hfound _ _ heach hextra
  obtain ⟨hkey, hkind, -⟩ := info_eq_ok hinfo
  have htour : tourOne p = [p] ++ tour p.children ++ tourExtra p.additionalParameter :=
    tourOne_eq p
  rw [List.map_append, List.map_append, subject_findings hkey hkind hfound,
    fallbackSubjects_of_madeEach heach, fallbackSubjects_of_madeFurther hextra, htour,
    fallbackSubjects_append, fallbackSubjects_append]

/-- Fallbacks below a map of lists: in the items, in the further keys of an object with properties,
and beside them. -/
theorem found_deriveRoot_nested :
    let object (properties : Fields) (further : Value) : Value :=
      .record [("properties", .record properties), ("additionalProperties", further)]
    let rows : Value := .record [("type", .text "array"), ("items", object [("x", .null)] .null)]
    let schema := object
      [("m", .record [("type", .text "object"),
          ("additionalProperties", object [("rows", rows), ("n", .bool true)] (.record []))]),
        ("z", .record [("type", .text "date")])] (.record [])
    ∃ ps found, deriveRoot (.whole 100) schema = .ok (ps, found)
      ∧ found.map (fun d => (d.code, d.severity, d.jsonKey))
        = ((tour ps).filter (·.kind = .fallback)).map
          (fun p => (.fallbackNode, .warning, p.jsonKey))
      ∧ (tour ps).map (fun p => (p.jsonKey, p.kind))
        = [("m", .map), ("m", .object), ("m.rows", .arrayOfObject), ("m.rows.x", .fallback),
          ("m.n", .fallback), ("m", .fallback), ("z", .fallback)]
      ∧ found.map (·.jsonKey) = ["m.rows.x", "m.n", "m", "z"] := by
  intro object rows schema
  obtain ⟨⟨ps, found⟩, h⟩ : ∃ made, deriveRoot (.whole 100) schema = .ok made :=
    exists_ok (by decide +kernel)
  have hmade : (deriveRoot (.whole 100) schema).toOption.map (fun made =>
      ((tour made.1).map fun p => (p.jsonKey, p.kind), made.2.map (·.jsonKey)))
        = some ([("m", .map), ("m", .object), ("m.rows", .arrayOfObject), ("m.rows.x", .fallback),
            ("m.n", .fallback), ("m", .fallback), ("z", .fallback)],
          ["m.rows.x", "m.n", "m", "z"]) := by
    decide +kernel
  rw [h] at hmade
  obtain ⟨htour, hkeys⟩ := Prod.mk.inj (Option.some.inj hmade)
  exact ⟨ps, found, h, found_deriveRoot h, htour, hkeys⟩

end Schema

end ParamForm
