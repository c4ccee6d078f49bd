import ParamForm.Proofs.Override.Shape
import ParamForm.Proofs.Parameter.Chain
import ParamForm.Proofs.Parameter.Distinct

/-!
# New labels

Overrides that are nested like a chain of parameters and set a label in the last place
(`Override.labelOverrides`) change that label and nothing else. They are accepted as they are where
no key of the chain is empty or has blanks at its ends (`Parameter.label_replaced`).
-/

namespace ParamForm

open Value Checked

namespace Checked

variable {α β : Type}

/-- What a check makes, unless there are issues. -/
def barring (issues : List Issue) (a : α) : Checked α :=
  match issues with
  | [] => .ok a
  | issue :: issues => .bad (issue :: issues)

theorem map_barring (f : α → β) (issues : List Issue) (a : α) :
    f <$> barring issues a = barring issues (f a) := by
  cases issues <;> rfl

theorem seq_barring (issues more : List Issue) (f : α → β) (a : α) :
    barring issues f <*> barring more a = barring (issues ++ more) (f a) := by
  cases issues <;> cases more <;> simp [barring, Seq.seq, apply]

theorem under_barring (s : Step) (issues : List Issue) (a : α) :
    (barring issues a).under s = barring (issues.map (Issue.under s)) a := by
  cases issues <;> rfl

end Checked

namespace Override

/-- A request for a new label as a list of values, nested by the keys of a chain. -/
def labelRequest (label : String) : List String → List Value
  | [] => []
  | [key] => [.record [("jsonKey", .text key), ("label", .text label)]]
  | key :: next :: keys =>
    [.record [("jsonKey", .text key),
      ("subParameters", .list (labelRequest label (next :: keys)))]]

/-- The overrides that a request asks for. -/
def labelOverrides (label : String) : List String → List Override
  | [] => []
  | [key] => [{ jsonKey := key, label := some label }]
  | key :: next :: keys =>
    [{ jsonKey := key, subParameters := some (labelOverrides label (next :: keys)) }]

/-- What is wrong with a key: that it is nothing but blanks. -/
def keyIssues (key : String) : List Issue :=
  if (Text.trim key).isEmpty then [⟨[], "jsonKey must not be empty"⟩] else []

/-- What is wrong with the keys of a request, each where it stands. -/
def requestIssues : List String → List Issue
  | [] => []
  | key :: keys =>
    ((keyIssues key).map (Issue.under (.field "jsonKey"))
      ++ (requestIssues keys).map (Issue.under (.field "subParameters"))).map
        (Issue.under (.index 0))

theorem checkKey_text (key : String) :
    checkKey (.text key) = barring (keyIssues key) (Text.trim key) := by
  unfold checkKey keyIssues
  cases h : (Text.trim key).isEmpty <;> simp [h, barring, fault]

theorem checkOne_last (key label : String) :
    checkOne (.record [("jsonKey", .text key), ("label", .text label)])
      = (fun key => { jsonKey := key, label := some label })
        <$> (checkKey (.text key)).under (.field "jsonKey") := by
  rw [checkOne_eq, checkRecord_record]
  cases hkey : checkKey (.text key) <;>
    simp [checkField, checkPart, checkMethod, member, entries, Fields.get, Fields.get?,
      List.lookup_cons, List.lookup_nil, hkey, under, map, checkOptional, checkText] <;> rfl

theorem checkOne_above (key : String) (vs : List Value) :
    checkOne (.record [("jsonKey", .text key), ("subParameters", .list vs)])
      = (fun key os => { jsonKey := key, subParameters := some os })
        <$> (checkKey (.text key)).under (.field "jsonKey")
        <*> (checkEach checkOne 0 vs).under (.field "subParameters") := by
  rw [checkOne_eq, checkRecord_record]
  cases hkey : checkKey (.text key) <;> cases hbelow : checkEach checkOne 0 vs <;>
    simp [checkField, checkPart, checkMethod, member, entries, Fields.get, Fields.get?,
      List.lookup_cons, List.lookup_nil, hkey, hbelow, under, map, checkOptional, checkList] <;> rfl

theorem checkEach_singleton {v : Value} {issues : List Issue} {o : Override}
    (h : checkOne v = barring issues o) :
    checkEach checkOne 0 [v] = barring (issues.map (Issue.under (.index 0))) [o] := by
  have hnil : checkEach checkOne 1 [] = barring [] [] := rfl
  rw [checkEach, h, under_barring, map_barring, hnil, seq_barring, List.append_nil]

/-- The keys of a request lose their blanks, and those of which nothing is left are reported. -/
theorem checkEach_labelRequest (label : String) (keys : List String) :
    checkEach checkOne 0 (labelRequest label keys)
      = barring (requestIssues keys) (labelOverrides label (keys.map Text.trim)) := by
  induction keys using labelRequest.induct with
  | case1 => rfl
  | case2 key =>
    refine checkEach_singleton ?_
    rw [checkOne_last, checkKey_text, under_barring, map_barring, requestIssues, List.map_nil,
      List.append_nil]
  | case3 key next keys ih =>
    refine checkEach_singleton ?_
    rw [checkOne_above, checkKey_text, ih, under_barring, under_barring, map_barring, seq_barring]
    rfl

/-- A request is accepted, with its keys trimmed, unless there is something wrong with a key. -/
theorem ofValue_labelRequest (label : String) (keys : List String) :
    ofValue (.list (labelRequest label keys))
      = if requestIssues keys = [] then .ok (labelOverrides label (keys.map Text.trim))
        else .error (.document "override" (requestIssues keys)) := by
  rw [ofValue, check, checkAll_eq, checkEach_labelRequest]
  cases requestIssues keys <;> rfl

theorem requestIssues_eq_nil_iff {keys : List String} :
    requestIssues keys = [] ↔ ∀ key ∈ keys, Text.trim key ≠ "" := by
  induction keys with
  | nil => simp [requestIssues]
  | cons key keys ih => simp [requestIssues, keyIssues, ih]

theorem accepted_iff {label : String} {keys : List String} :
    (∃ os, ofValue (.list (labelRequest label keys)) = .ok os)
      ↔ ∀ key ∈ keys, Text.trim key ≠ "" := by
  rw [ofValue_labelRequest, ← requestIssues_eq_nil_iff]
  split_ifs with h <;> simp [h]

/-- Keys without blanks at their ends stay as they are. -/
theorem accepted_of_trimmed {keys : List String}
    (h : ∀ key ∈ keys, key ≠ "" ∧ Text.trim key = key) (label : String) :
    ofValue (.list (labelRequest label keys)) = .ok (labelOverrides label keys) := by
  have htrim : keys.map Text.trim = keys :=
    (List.map_congr_left fun key hkey => (h key hkey).2).trans (List.map_id keys)
  have hissues : requestIssues keys = [] :=
    requestIssues_eq_nil_iff.mpr fun key hkey => (h key hkey).2.symm ▸ (h key hkey).1
  rw [ofValue_labelRequest, if_pos hissues, htrim]

end Override

namespace Parameter

open Override

/-- A tree with another label for the parameter at the end of a path of positions. -/
def relabeled (label : String) : List Nat → List Parameter → List Parameter
  | [], ps => ps
  | [i], ps => ps.modify i fun p => { p with info := { p.info with label } }
  | i :: next :: path, ps => ps.modify i fun p =>
    { p with subParameters := p.subParameters.map (relabeled label (next :: path)) }

theorem patchEach_of_nil (ps : List Parameter) : patchEach ps [] = (ps, []) := by
  induction ps with
  | nil => rfl
  | cons p ps ih =>
    rw [patchEach]
    simp [takeByKey, ih]

/-- One override is used at its sibling, and nothing is found elsewhere. -/
theorem patchEach_singleton {ps : List Parameter} (hkeys : (ps.map (·.jsonKey)).Nodup) {i : Nat}
    {p : Parameter} (hp : ps[i]? = some p) {o : Override} (ho : o.jsonKey = p.jsonKey) :
    patchEach ps [o] = (ps.set i (patchOne p o).1, (patchOne p o).2) := by
  induction ps generalizing i with
  | nil => cases hp
  | cons q ps ih =>
    rw [List.map_cons, List.nodup_cons] at hkeys
    rw [patchEach, takeByKey]
    cases i with
    | zero =>
      obtain rfl := Option.some.inj hp
      simp [ho, patchEach_of_nil]
    | succ i =>
      have hmem : p.jsonKey ∈ ps.map (·.jsonKey) :=
        List.mem_map_of_mem (List.mem_of_getElem? hp)
      have hne : o.jsonKey ≠ q.jsonKey := fun heq => hkeys.1 (heq ▸ ho ▸ hmem)
      simp [hne, ih hkeys.2 hp]

theorem patchList_singleton {ps : List Parameter} (hkeys : (ps.map (·.jsonKey)).Nodup) {i : Nat}
    {p : Parameter} (hp : ps[i]? = some p) {o : Override} (ho : o.jsonKey = p.jsonKey) :
    patchList ps [o] = (ps.set i (patchOne p o).1, (patchOne p o).2) := by
  have hwinners : winners [o] = [o] := rfl
  rw [patchList, hwinners, patchEach_singleton hkeys hp ho]
  rfl

theorem patchSubs_of_ne_nil {key : String} {ps : List Parameter} (h : ps ≠ [])
    (os : List Override) : patchSubs key (some ps) (some os)
      = (some (patchList ps os).1, (patchList ps os).2) := by
  cases ps with
  | nil => exact absurd rfl h
  | cons p ps =>
    rw [patchSubs]
    rfl

theorem patchOne_eq (p : Parameter) (o : Override) :
    patchOne p o = (⟨p.info.patched o, (patchSubs p.jsonKey p.subParameters o.subParameters).1,
      p.additionalParameter⟩, (patchSubs p.jsonKey p.subParameters o.subParameters).2) := by
  cases p
  rw [patchOne]

theorem modify_eq_set {ps : List Parameter} {i : Nat} {p : Parameter} (hp : ps[i]? = some p)
    (f : Parameter → Parameter) : ps.modify i f = ps.set i (f p) := by
  rw [List.modify_eq_set, hp]
  rfl

theorem subParameters_eq_children {p : Parameter} (h : p.children ≠ []) :
    p.subParameters = some p.children := by
  unfold children at h ⊢
  cases hsubs : p.subParameters with
  | none => simp [hsubs] at h
  | some ps => rfl

/-- The overrides of a chain change the label at its end, and nothing is found on the way. -/
theorem patchList_labelOverrides {path : List Nat} {ps chain : List Parameter}
    (h : DistinctSiblings ps) (hchain : chain? path ps = some chain) (label : String) :
    patchList ps (labelOverrides label (chain.map (·.jsonKey)))
      = (relabeled label path ps, []) := by
  induction path generalizing ps chain with
  | nil =>
    obtain rfl := Option.some.inj hchain
    exact patchEach_of_nil ps
  | cons i path ih =>
    obtain ⟨p, below, hp, hbelow, rfl⟩ := chain?_cons_eq_some.mp hchain
    cases path with
    | nil =>
      obtain rfl := Option.some.inj hbelow
      have hsubs : patchSubs p.jsonKey p.subParameters none = (p.subParameters, []) := by
        rw [patchSubs]
      rw [List.map_cons, List.map_nil, labelOverrides, patchList_singleton h.nodup hp rfl,
        relabeled, modify_eq_set hp, patchOne_eq, hsubs]
      rfl
    | cons next path =>
      obtain ⟨q, rest, hq, -, rfl⟩ := chain?_cons_eq_some.mp hbelow
      have hne : p.children ≠ [] := List.ne_nil_of_mem (List.mem_of_getElem? hq)
      have hlaid := ih (h.children hp) hbelow
      have hover : labelOverrides label ((p :: q :: rest).map (·.jsonKey))
          = [{ jsonKey := p.jsonKey,
               subParameters := some (labelOverrides label ((q :: rest).map (·.jsonKey))) }] := rfl
      rw [hover, patchList_singleton h.nodup hp rfl, relabeled, modify_eq_set hp, patchOne_eq,
        subParameters_eq_children hne, patchSubs_of_ne_nil hne, hlaid]
      rfl

theorem ofSchema_labelOverrides {options : Options} {schema : Value} {base : Rendering}
    (hwell : schema.WellFormed) (hbase : Rendering.ofSchema options schema [] = .ok base)
    (hcopy : allCopyable base.parameters = true) {path : List Nat} {chain : List Parameter}
    (hchain : chain? path base.parameters = some chain) (label : String) :
    Rendering.ofSchema options schema (labelOverrides label (chain.map (·.jsonKey)))
      = .ok ⟨relabeled label path base.parameters, base.diagnostics⟩ := by
  have hlaid := patchList_labelOverrides (Rendering.distinctSiblings_base hwell hbase) hchain label
  cases hos : labelOverrides label (chain.map (·.jsonKey)) with
  | nil =>
    have hsame : patchList base.parameters [] = (base.parameters, []) :=
      patchEach_of_nil base.parameters
    have hparameters : base.parameters = relabeled label path base.parameters :=
      congrArg Prod.fst (hsame.symm.trans (hos ▸ hlaid))
    rw [hbase, ← hparameters]
  | cons o os =>
    rw [Rendering.ofSchema_eq hbase, patch, if_pos hcopy, ← hos, hlaid]
    simp [Except.map]

/-- Of a tree without overrides that can be copied, the walk visits the ends of the chains of
parameters. A request for a new label at the end of a chain is accepted exactly if no key of the
chain is nothing but blanks. If the keys have no blanks at their ends either, it is accepted as it
is, and the tree with it differs from the one without in that label alone. -/
theorem label_replaced {options : Options} {schema : Value} {base : Rendering}
    (hwell : schema.WellFormed) (hbase : Rendering.ofSchema options schema [] = .ok base)
    (hcopy : allCopyable base.parameters = true) :
    (∀ visit, visit ∈ walk base.parameters
        ↔ ∃ path ancestors, chain? path base.parameters = some (ancestors ++ [visit.2])
          ∧ visit.1 = ancestors.length)
      ∧ ∀ path chain, chain? path base.parameters = some chain → ∀ label : String,
        let keys := chain.map (·.jsonKey)
        ((∃ os, ofValue (.list (labelRequest label keys)) = .ok os)
            ↔ ∀ key ∈ keys, Text.trim key ≠ "")
          ∧ ((∀ key ∈ keys, key ≠ "" ∧ Text.trim key = key) →
            ofValue (.list (labelRequest label keys)) = .ok (labelOverrides label keys)
              ∧ Rendering.ofSchema options schema (labelOverrides label keys)
                = .ok ⟨relabeled label path base.parameters, base.diagnostics⟩) := by
  refine ⟨fun _ => mem_walk_iff, fun path chain hchain label => ⟨accepted_iff, fun hkeys => ?_⟩⟩
  exact ⟨accepted_of_trimmed hkeys label, ofSchema_labelOverrides hwell hbase hcopy hchain label⟩

/-- A parameter below the items of an array, which is not the first of its siblings. -/
theorem label_replaced_nested :
    let row : Value := .record [("required", .list [.text "b"]),
      ("properties", .record [("cell", .record [("type", .text "string")]), ("b", .null)])]
    let rows : Value := .record [("type", .text "array"), ("items", row)]
    let schema : Value := .record [("required", .list [.text "a"]),
      ("properties", .record [("a", .null), ("rows", rows)])]
    ∃ base chain, Rendering.ofSchema .defaults schema [] = .ok base
      ∧ allCopyable base.parameters = true
      ∧ (walk base.parameters).map (·.2.info.label) = ["a", "rows", "b", "cell"]
      ∧ chain? [1, 1] base.parameters = some chain
      ∧ chain.map (·.jsonKey) = ["rows", "rows.cell"]
      ∧ Rendering.ofSchema .defaults schema (labelOverrides "L" (chain.map (·.jsonKey)))
        = .ok ⟨relabeled "L" [1, 1] base.parameters, base.diagnostics⟩
      ∧ (walk (relabeled "L" [1, 1] base.parameters)).map (·.2.info.label)
        = ["a", "rows", "b", "L"] := by
  intro row rows schema
  obtain ⟨base, hbase⟩ : ∃ base, Rendering.ofSchema .defaults schema [] = .ok base :=
    exists_ok (by decide +kernel)
  have hdata : (Rendering.ofSchema .defaults schema []).toOption.map (fun base =>
      (allCopyable base.parameters, (walk base.parameters).map (·.2.info.label),
        (chain? [1, 1] base.parameters).map (List.map (·.jsonKey)),
        (walk (relabeled "L" [1, 1] base.parameters)).map (·.2.info.label)))
      = some (true, ["a", "rows", "b", "cell"], some ["rows", "rows.cell"],
        ["a", "rows", "b", "L"]) := by
    decide +kernel
  rw [hbase] at hdata
  simp only [Except.toOption, Option.map_some, Option.some.injEq, Prod.mk.injEq] at hdata
  obtain ⟨hcopy, hlabels, hchain, hrelabeled⟩ := hdata
  obtain ⟨chain, hchain, hkeys⟩ := Option.map_eq_some_iff.mp hchain
  have hwell : schema.WellFormed := by
    simp [schema, rows, row, WellFormed, WellFormedFields, WellFormedItems, Fields.Ordered,
      Fields.Before, arrayIndex?]
  have hlaid := (label_replaced hwell hbase hcopy).2 [1, 1] chain hchain "L"
  refine ⟨base, chain, hbase, hcopy, hlabels, hchain, hkeys, (hlaid.2 ?_).2, hrelabeled⟩
  rw [hkeys]
  decide

/-- A property whose name is empty, and one whose name begins with a blank: the request for a label
of the first is not accepted, and that for the second is, but finds no parameter. The last schema
has a tree that cannot be copied. -/
theorem label_not_replaced :
    let leaf : Value := .record [("type", .text "string")]
    let schema : Value := .record [("required", .list [.text ""]),
      ("properties", .record [("", leaf), (" a", leaf)])]
    let fixed : Value := .record [("properties", .record [("a", .record
      [("type", .text "string"), ("format", .text "constructor")])])]
    (∃ base r, Rendering.ofSchema .defaults schema [] = .ok base
      ∧ Rendering.ofSchema .defaults schema (labelOverrides "L" ["a"]) = .ok r
      ∧ (walk base.parameters).map (fun visit => (visit.1, visit.2.jsonKey)) = [(0, ""), (0, " a")]
      ∧ ofValue (.list (labelRequest "L" [""]))
        = .error (.document "override"
          [⟨[.index 0, .field "jsonKey"], "jsonKey must not be empty"⟩])
      ∧ ofValue (.list (labelRequest "L" [" a"])) = .ok (labelOverrides "L" ["a"])
      ∧ (walk (relabeled "L" [1] base.parameters)).map (·.2.info.label) = ["", "L"]
      ∧ (walk r.parameters).map (·.2.info.label) = ["", " a"])
    ∧ ∃ base, Rendering.ofSchema .defaults fixed [] = .ok base
      ∧ base.parameters.map (·.jsonKey) = ["a"]
      ∧ ofValue (.list (labelRequest "L" ["a"])) = .ok (labelOverrides "L" ["a"])
      ∧ Rendering.ofSchema .defaults fixed (labelOverrides "L" ["a"]) = .error .notCopyable := by
  intro leaf schema fixed
  obtain ⟨base, hbase⟩ : ∃ base, Rendering.ofSchema .defaults schema [] = .ok base :=
    exists_ok (by decide +kernel)
  obtain ⟨r, hr⟩ : ∃ r, Rendering.ofSchema .defaults schema (labelOverrides "L" ["a"]) = .ok r :=
    exists_ok (by decide +kernel)
  have hdata : (Rendering.ofSchema .defaults schema []).toOption.map (fun base =>
      ((walk base.parameters).map (fun visit => (visit.1, visit.2.jsonKey)),
        (walk (relabeled "L" [1] base.parameters)).map (·.2.info.label)))
      = some ([(0, ""), (0, " a")], ["", "L"]) := by
    decide +kernel
  have hfinal : (Rendering.ofSchema .defaults schema (labelOverrides "L" ["a"])).toOption.map
      (fun r => (walk r.parameters).map (·.2.info.label)) = some ["", " a"] := by
    decide +kernel
  rw [hbase] at hdata
  rw [hr] at hfinal
  simp only [Except.toOption, Option.map_some, Option.some.injEq, Prod.mk.injEq] at hdata
  obtain ⟨whole, hwhole⟩ : ∃ base, Rendering.ofSchema .defaults fixed [] = .ok base :=
    exists_ok (by decide +kernel)
  have hfixed : (Rendering.ofSchema .defaults fixed []).toOption.map (fun base =>
      (base.parameters.map (·.jsonKey), allCopyable base.parameters)) = some (["a"], false) := by
    decide +kernel
  rw [hwhole] at hfixed
  simp only [Except.toOption, Option.map_some, Option.some.injEq, Prod.mk.injEq] at hfixed
  have hcopy : ¬ allCopyable whole.parameters = true := by simp [hfixed.2]
  refine ⟨⟨base, r, hbase, hr, hdata.1, ?_, ?_, hdata.2, Option.some.inj hfinal⟩,
    whole, hwhole, hfixed.1, ?_, ?_⟩
  · rw [ofValue_labelRequest]
    rfl
  · rw [ofValue_labelRequest]
    rfl
  · rw [ofValue_labelRequest]
    rfl
  · rw [labelOverrides, Rendering.ofSchema_eq hwhole, patch, if_neg hcopy]
    rfl

end Parameter

end ParamForm
