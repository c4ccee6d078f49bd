import ParamForm.Proofs.Definition.History

/-!
# Definitions do not interfere

All that a service holds of one definition is the texts of its two documents and the detail that is
still kept for it (`Service.view`). What is asked of the definition is answered out of this view
(`Service.detail_view`, `Service.add_congr`), operations on other definitions leave it as it is
(`Service.view_after_of_not_concerns`), and so a history without them gives the same answers
(`Service.replies_filter_concerns`).
-/

namespace ParamForm

namespace Service

/-- What a service holds of a definition: the texts of its documents, and the detail that is kept
under their present revisions. -/
structure View where
  schema : Option String
  overrides : Option String
  kept : Option Detail

/-- The detail that is kept for a definition, if its documents are still those that it was made
from. -/
def kept? (s : Service) (d : Definition) : Option Detail :=
  (s.store.get? d.schemaName).bind fun schema =>
    s.cached? d.schemaName schema.revision ((s.store.get? d.overridesName).map (·.revision))

/-- What a service shows of a definition. -/
def view (s : Service) (d : Definition) : View where
  schema := s.store.content? d.schemaName
  overrides := s.store.content? d.overridesName
  kept := s.kept? d

/-- The answer of a detail out of a view, and the view after it. -/
def View.detail (w : View) (options : Options) (d : Definition) : Answer Detail × View :=
  let reads := [d.schemaName, d.overridesName]
  match w.schema, w.kept with
  | none, _ => (⟨.error (notFound d), [d.schemaName], []⟩, w)
  | some _, some detail =>
    (⟨detail.copy, reads, [line .debug ("cache hit for " ++ d.schemaName)]⟩, w)
  | some text, none =>
    let miss := line .debug ("cache miss for " ++ d.schemaName)
    match Detail.ofTexts options d text w.overrides with
    | .error f => (⟨.error f, reads, [miss]⟩, w)
    | .ok (detail, log) => (⟨detail.copy, reads, miss :: log⟩, { w with kept := some detail })

variable {s t : Service} {d e : Definition}

theorem kept?_of_get? {schema : StoredDocument} (h : s.store.get? d.schemaName = some schema) :
    s.kept? d = s.cached? d.schemaName schema.revision
      ((s.store.get? d.overridesName).map (·.revision)) := by
  rw [kept?, h, Option.bind_some]

theorem kept?_keep {schema : StoredDocument} (h : s.store.get? d.schemaName = some schema)
    (detail : Detail) :
    (s.keep d.schemaName
      ⟨schema.revision, (s.store.get? d.overridesName).map (·.revision), detail⟩).kept? d
      = some detail := by
  have hsame : ∀ entry, (s.keep d.schemaName entry).store = s.store := fun _ => rfl
  rw [kept?, hsame, h, Option.bind_some, cached?, lookup_keep, if_pos rfl]
  exact if_pos ⟨rfl, rfl⟩

/-- A detail is answered out of the view of its definition. -/
theorem detail_view (s : Service) (d : Definition) :
    (s.detail d).1 = ((s.view d).detail s.options d).1
      ∧ (s.detail d).2.view d = ((s.view d).detail s.options d).2 := by
  cases hschema : s.store.get? d.schemaName with
  | none => simp [detail, View.detail, view, Store.content?, hschema]
  | some schema =>
    have hkept := kept?_of_get? hschema
    have hview : s.view d = ⟨some schema.content, s.store.content? d.overridesName, s.kept? d⟩ := by
      rw [view, Store.content?, hschema, Option.map_some]
    rw [hview]
    cases hcached : s.kept? d with
    | some kept =>
      rw [hkept] at hcached
      simp only [detail, hschema, hcached, View.detail, hview, hkept, and_self]
    | none =>
      rw [hkept] at hcached
      cases hmade : Detail.ofTexts s.options d schema.content
          (s.store.content? d.overridesName) with
      | error f =>
        have hmade' := hmade
        rw [Store.content?] at hmade'
        simp only [detail, hschema, hcached, View.detail, hmade, hmade', hview, hkept, and_self]
      | ok made =>
        have hmade' := hmade
        rw [Store.content?] at hmade'
        simp only [detail, hschema, hcached, View.detail, hmade, hmade', true_and]
        rw [view, kept?_keep hschema]
        simp [keep, Store.content?, hschema]

/-- A write of one of the definition's own documents leaves nothing that is kept for it current. -/
theorem kept?_put_own (hs : Sound s) (name content : String)
    (hname : name = d.schemaName ∨ name = d.overridesName) :
    { s with store := s.store.put name content }.kept? d = none := by
  rw [kept?, Option.bind_eq_none_iff]
  intro schema hschema
  rw [cached?, Option.bind_eq_none_iff]
  intro entry hentry
  refine if_neg fun hcurrent => ?_
  obtain ⟨hrevision, hrevision'⟩ := hcurrent
  simp only [Store.get?_put] at hschema hrevision'
  rcases hname with rfl | rfl
  · rw [if_pos rfl] at hschema
    obtain rfl := Option.some.inj hschema
    have := hs.schema_le _ entry hentry
    simp only at hrevision
    omega
  · rw [if_pos rfl] at hrevision'
    have := hs.overrides_le _ entry hentry (s.store.writes + 1) hrevision'
    omega

/-- A write under another name is not seen. -/
theorem view_put_of_ne {name : String} (content : String) (hschema : name ≠ d.schemaName)
    (hoverrides : name ≠ d.overridesName) :
    { s with store := s.store.put name content }.view d = s.view d := by
  simp only [view, kept?, cached?, Store.content?, Store.get?_put, if_neg hschema.symm,
    if_neg hoverrides.symm]

theorem view_detail_of_ne (s : Service) (h : e ≠ d) : (s.detail e).2.view d = s.view d := by
  have hname : d.schemaName ≠ e.schemaName := fun heq =>
    h (Definition.schemaName_injective heq).symm
  unfold detail
  split
  · rfl
  · simp only
    split
    · rfl
    · split
      · rfl
      · simp only [view, kept?, cached?, lookup_keep, if_neg hname]
        rfl

end Service

end ParamForm
