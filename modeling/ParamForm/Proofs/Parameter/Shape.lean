import Mathlib.Data.List.Forall2
import ParamForm.Proofs.Parameter.Walk
import ParamForm.Proofs.Render

/-!
# The shape of patched trees

Overrides change neither which parameters a tree has nor where they stand. On every level
(`Parameter.level`) a patched tree has the siblings of the base tree with the same keys and kinds
(`Parameter.sameFrames_patchList`), and so it is walked and searched in the same way
(`Parameter.outline_walk_patchList`).
-/

namespace ParamForm

namespace Parameter

/-- The siblings at the end of a path of positions, none where it leads nowhere. -/
def level : List Nat → List Parameter → List Parameter
  | [], ps => ps
  | i :: path, ps =>
    match ps[i]? with
    | some p => level path p.children
    | none => []

/-- Two parameters with the same key and kind and the same value parameter, both with a list of
sub-parameters or both without. -/
structure SameFrame (p q : Parameter) : Prop where
  jsonKey : q.jsonKey = p.jsonKey
  kind : q.kind = p.kind
  subParameters : q.subParameters.isSome = p.subParameters.isSome
  additionalParameter : q.additionalParameter = p.additionalParameter

theorem sameFrame_overlaid (p : Parameter) (o? : Option Override) :
    SameFrame p (p.overlaid o?) := by
  cases o? with
  | none => exact ⟨rfl, rfl, rfl, rfl⟩
  | some o =>
    rw [overlaid, patchOne_fst]
    exact ⟨rfl, rfl, isSome_patchSubs _ _ _, rfl⟩

theorem patchEach_overlays (ps : List Parameter) (os : List Override) :
    List.Forall₂ (fun p q => ∃ o?, q = p.overlaid o?) ps (patchEach ps os).1 := by
  induction ps generalizing os with
  | nil =>
    rw [patchEach]
    exact .nil
  | cons p ps ih =>
    rw [patchEach_cons_fst]
    exact .cons ⟨_, rfl⟩ (ih _)

theorem getElem?_of_forall₂ {α β : Type} {R : α → β → Prop} {as : List α} {bs : List β}
    (h : List.Forall₂ R as bs) (i : Nat) : Option.Rel R as[i]? bs[i]? := by
  induction h generalizing i with
  | nil => exact .none
  | cons hab _ ih =>
    cases i with
    | zero => exact .some hab
    | succ i => exact ih i

/-- On every level the siblings keep their frames. -/
theorem sameFrames_patchList (path : List Nat) (ps : List Parameter) (os : List Override) :
    List.Forall₂ SameFrame (level path ps) (level path (patchList ps os).1) := by
  have hoverlays := patchEach_overlays ps (winners os)
  induction path generalizing ps os with
  | nil =>
    refine hoverlays.imp ?_
    rintro p q ⟨o?, rfl⟩
    exact sameFrame_overlaid p o?
  | cons i path ih =>
    have hstep : Option.Rel _ ps[i]? (patchList ps os).1[i]? := getElem?_of_forall₂ hoverlays i
    rw [level, level]
    generalize ps[i]? = p?, (patchList ps os).1[i]? = q? at hstep
    cases hstep with
    | none => exact .nil
    | @some p q hpq =>
      obtain ⟨o?, rfl⟩ := hpq
      simp only [children_overlaid]
      exact ih _ _ (patchEach_overlays _ _)

/-- The depths, keys and kinds of visited parameters. -/
def outline {α : Type} (visited : List (α × Parameter)) : List (α × String × Kind) :=
  visited.map fun v => (v.1, v.2.jsonKey, v.2.kind)

section Outline

variable {α : Type} (deeper : α → α)

mutual

theorem outline_patchOne :
    ∀ (depth : α) (p : Parameter) (o : Override),
      outline (walkOneBy deeper depth (patchOne p o).1) = outline (walkOneBy deeper depth p)
  | depth, ⟨info, subs, extra⟩, o => by
    rw [patchOne, walkOneBy, walkOneBy]
    simp only [outline, List.map_cons]
    exact congrArg _ (outline_patchSubs (deeper depth) info.jsonKey subs o.subParameters)

theorem outline_patchSubs :
    ∀ (depth : α) (key : String) (subs : Option (List Parameter)) (os : Option (List Override)),
      outline (walkSubsBy deeper depth (patchSubs key subs os).1)
        = outline (walkSubsBy deeper depth subs)
  | _, _, subs, none => by rw [patchSubs]
  | _, _, none, some os => by
    rw [patchSubs]
    simp
  | _, _, some [], some os => by
    rw [patchSubs]
    simp
  | depth, _, some (p :: ps), some os => by
    rw [patchSubs, walkSubsBy]
    exact outline_patchEach depth (p :: ps) (winners os)

theorem outline_patchEach :
    ∀ (depth : α) (ps : List Parameter) (os : List Override),
      outline (walkBy deeper depth (patchEach ps os).1) = outline (walkBy deeper depth ps)
  | _, [], _ => by rw [patchEach]
  | depth, p :: ps, os => by
    have hafter := outline_patchEach depth ps (os.filter (·.jsonKey ≠ p.jsonKey))
    rw [patchEach_cons_fst, walkBy, walkBy]
    unfold outline at hafter ⊢
    rw [List.map_append, List.map_append, hafter]
    cases os.find? (·.jsonKey = p.jsonKey) with
    | none => rfl
    | some o => exact congrArg (· ++ _) (outline_patchOne depth p o)

end

end Outline

theorem outline_walk_patchList (ps : List Parameter) (os : List Override) :
    outline (walk (patchList ps os).1) = outline (walk ps) :=
  outline_patchEach (· + 1) 0 ps (winners os)

/-- Trees that are walked over the same keys are searched with the same success. -/
theorem isSome_find?_of_outline {ps qs : List Parameter}
    (h : outline (walk qs) = outline (walk ps)) (key : String) :
    (find? key qs).isSome = (find? key ps).isSome := by
  have hkeys : keys qs = keys ps := by
    have h := congrArg (List.map fun o => o.2.1) h
    rw [outline, outline, List.map_map, List.map_map] at h
    exact h
  rw [Bool.eq_iff_iff, find?_isSome_iff, find?_isSome_iff, hkeys]

/-- A patched tree has the frames of the base tree on every level; and a tree that is rendered with
overrides is walked over the depths, keys and kinds of the one without, and finds the same keys. -/
theorem patch_keeps_frames :
    (∀ ps os qs found, patch ps os = .ok (qs, found) →
        ∀ path, List.Forall₂ SameFrame (level path ps) (level path qs))
      ∧ ∀ options schema os base r, Rendering.ofSchema options schema [] = .ok base →
        Rendering.ofSchema options schema os = .ok r →
          outline (walk r.parameters) = outline (walk base.parameters)
            ∧ ∀ key, (find? key r.parameters).isSome = (find? key base.parameters).isSome := by
  constructor
  · intro ps os qs found h path
    have hqs : (patchList ps os).1 = qs := congrArg Prod.fst (patch_eq_ok h)
    rw [← hqs]
    exact sameFrames_patchList path ps os
  · intro options schema os base r hbase hr
    have houtline : outline (walk r.parameters) = outline (walk base.parameters) := by
      rw [Rendering.parameters_of_ok hbase hr]
      exact outline_walk_patchList base.parameters os
    exact ⟨houtline, isSome_find?_of_outline houtline⟩

/-- A parameter of kind `object` with a key, the key as its label, and sub-parameters. -/
def group (key : String) (subs : List Parameter) : Parameter where
  info :=
    { jsonKey := key, label := key, description := none, uiType := Kind.object.tag.widget,
      kind := .object, validate := ⟨false, {}⟩, conditions := [], sort := usualSort,
      disable := none, style := none, subParameterGroupOption := none, additional := none,
      others := [] }
  subParameters := some subs
  additionalParameter := none

/-- Two siblings of one key and overrides that are repeated, that sort, and that go below a
parameter without sub-parameters; and a schema that these overrides are rendered with. -/
theorem patch_keeps_frames_repeated :
    let ps := [group "a" [group "a.b" []], group "a" []]
    let below : List Override :=
      [{ jsonKey := "a.b", label := some "B", subParameters := some [{ jsonKey := "c" }] }]
    let os : List Override :=
      [{ jsonKey := "a", label := some "A" },
        { jsonKey := "a", sort := some (.whole 1), subParameters := some below }]
    let schema : Value := .record [("properties", .record [("a", .record
      [("properties", .record [("b", .record [("type", .text "string")])])])])]
    (∃ qs found, patch ps os = .ok (qs, found)
        ∧ List.Forall₂ SameFrame (level [0] ps) (level [0] qs)
        ∧ (level [0] qs).map (·.info.label) = ["B"])
      ∧ ∃ base r, Rendering.ofSchema .defaults schema [] = .ok base
        ∧ Rendering.ofSchema .defaults schema os = .ok r
        ∧ outline (walk r.parameters) = outline (walk base.parameters)
        ∧ outline (walk r.parameters) = [(0, "a", .object), (1, "a.b", .string)] := by
  intro ps below os schema
  have hpatch : patch ps os = .ok (patchList ps os) := rfl
  obtain ⟨base, hbase⟩ : ∃ base, Rendering.ofSchema .defaults schema [] = .ok base :=
    exists_ok (by decide +kernel)
  obtain ⟨r, hr⟩ : ∃ r, Rendering.ofSchema .defaults schema os = .ok r :=
    exists_ok (by decide +kernel)
  have hwalk : (Rendering.ofSchema .defaults schema os).toOption.map
      (fun r => outline (walk r.parameters)) = some [(0, "a", .object), (1, "a.b", .string)] := by
    decide +kernel
  rw [hr] at hwalk
  refine ⟨⟨_, _, hpatch, patch_keeps_frames.1 ps os _ _ hpatch [0], by decide +kernel⟩,
    base, r, hbase, hr, (patch_keeps_frames.2 _ _ _ _ _ hbase hr).1, ?_⟩
  exact Option.some.inj hwalk

end Parameter

end ParamForm
