import ParamForm.Definition.Service
import ParamForm.Proofs.Definition.Store

/-!
# Histories of the service

Whatever was called before, the service serves what the present texts of a definition make, as if
nothing had been kept. The invariant of all histories is `Service.Sound`: what is kept under
revisions that are still the present ones was made from the present texts.
-/

namespace ParamForm

/-- The text under a name. -/
def Store.content? (s : Store) (name : String) : Option String :=
  (s.get? name).map (·.content)

/-- What is served for a definition whose documents have these texts, and no more is known of: the
definition with its schema and the parameters of its render. It fails if there is no schema, if a
text cannot be read or rendered, and if a widget among the parameters cannot be copied. -/
def Detail.served (options : Options) (d : Definition) :
    Option String → Option String → Except Failure Detail
  | none, _ => .error (.schemaNotFound d.type.name d.name)
  | some schemaText, overridesText => do
    let schema ← Schema.ofText schemaText
    let overrides ← Override.ofText overridesText
    let r ← Rendering.ofSchema options schema overrides
    if Parameter.allCopyable r.parameters then .ok ⟨d, schema, r.parameters⟩
    else .error .notCopyable

theorem Detail.served_eq (options : Options) (d : Definition) (schemaText : String)
    (overridesText : Option String) :
    served options d (some schemaText) overridesText
      = ofTexts options d schemaText overridesText >>= fun made => made.1.copy := by
  unfold served ofTexts
  simp only [bind_assoc]
  rfl

namespace Service

theorem lookup_keep (s : Service) (name : String) (entry : CacheEntry) (other : String) :
    (s.keep name entry).cache.lookup other
      = if other = name then some entry else s.cache.lookup other := by
  unfold keep
  rw [lookup_cons_eq]
  split_ifs with h
  · rfl
  · exact lookup_filter_ne s.cache h

/-- A call of the service, or a write past it. -/
inductive Operation where
  | putSchema (d : Definition) (content : String)
  | putOverrides (d : Definition) (content : String)
  | add (d : Definition) (v : Value)
  | detail (d : Definition)
  | clearCache

/-- The service after an operation. -/
def after (s : Service) : Operation → Service
  | .putSchema d content => s.putSchema d content
  | .putOverrides d content => s.putOverrides d content
  | .add d v => (s.add d v).2
  | .detail d => (s.detail d).2
  | .clearCache => s.clearCache

/-- A service that began with an empty store, after some operations. -/
def run (options : Options) (ops : List Operation) : Service :=
  ops.foldl after { options }

/-- Everything that is kept has revisions of the past, and as long as they are the present ones, it
is what the present texts make. -/
structure Sound (s : Service) : Prop where
  numbered : s.store.Numbered
  schema_le : ∀ name entry, s.cache.lookup name = some entry →
    entry.schemaRevision ≤ s.store.writes
  overrides_le : ∀ name entry, s.cache.lookup name = some entry →
    ∀ r ∈ entry.overridesRevision, r ≤ s.store.writes
  current : ∀ d entry schema, s.cache.lookup d.schemaName = some entry →
    s.store.get? d.schemaName = some schema → schema.revision = entry.schemaRevision →
    (s.store.get? d.overridesName).map (·.revision) = entry.overridesRevision →
    ∃ log, Detail.ofTexts s.options d schema.content (s.store.content? d.overridesName)
      = .ok (entry.detail, log)

namespace Sound

variable {s : Service}

theorem empty (options : Options) : Sound { options } where
  numbered name document h := by simp [Store.get?] at h
  schema_le name entry h := by simp at h
  overrides_le name entry h := by simp at h
  current d entry schema h := by simp at h

theorem clearCache (h : Sound s) : Sound s.clearCache where
  numbered := h.numbered
  schema_le name entry hentry := by simp [Service.clearCache] at hentry
  overrides_le name entry hentry := by simp [Service.clearCache] at hentry
  current d entry schema hentry := by simp [Service.clearCache] at hentry

/-- A write makes the entries stale that were made from the document before, for its revision is
later than any that is kept. -/
theorem put (h : Sound s) (name content : String) :
    Sound { s with store := s.store.put name content } where
  numbered := h.numbered.put name content
  schema_le other entry hentry := (h.schema_le other entry hentry).trans (Nat.le_succ _)
  overrides_le other entry hentry r hr :=
    (h.overrides_le other entry hentry r hr).trans (Nat.le_succ _)
  current d entry schema hentry hschema hrevision hoverrides := by
    have hschemaLe := h.schema_le _ entry hentry
    have hoverridesLe := h.overrides_le _ entry hentry
    simp only [Store.get?_put] at hschema hoverrides
    have hname : d.schemaName ≠ name := by
      rintro rfl
      rw [if_pos rfl] at hschema
      obtain rfl := Option.some.inj hschema
      simp only at hrevision
      omega
    have hname' : d.overridesName ≠ name := by
      rintro rfl
      rw [if_pos rfl] at hoverrides
      have := hoverridesLe (s.store.writes + 1) hoverrides.symm
      omega
    rw [if_neg hname] at hschema
    rw [if_neg hname'] at hoverrides
    obtain ⟨log, hlog⟩ := h.current d entry schema hentry hschema hrevision hoverrides
    refine ⟨log, ?_⟩
    simp only [Store.content?, Store.get?_put, if_neg hname']
    exact hlog

/-- A detail that was just made from the present texts may be kept. -/
theorem keep (h : Sound s) {d : Definition} {schema : StoredDocument} {detail : Detail}
    {log : List LogLine} (hschema : s.store.get? d.schemaName = some schema)
    (hmade : Detail.ofTexts s.options d schema.content (s.store.content? d.overridesName)
      = .ok (detail, log)) :
    Sound (s.keep d.schemaName
      ⟨schema.revision, (s.store.get? d.overridesName).map (·.revision), detail⟩) where
  numbered := h.numbered
  schema_le other entry hentry := by
    rw [lookup_keep] at hentry
    split_ifs at hentry
    · obtain rfl := Option.some.inj hentry
      exact h.numbered _ _ hschema
    · exact h.schema_le other entry hentry
  overrides_le other entry hentry r hr := by
    rw [lookup_keep] at hentry
    split_ifs at hentry
    · obtain rfl := Option.some.inj hentry
      obtain ⟨document, hdocument, rfl⟩ := Option.map_eq_some_iff.mp hr
      exact h.numbered _ _ hdocument
    · exact h.overrides_le other entry hentry r hr
  current e entry found hentry hfound hrevision hoverrides := by
    rw [lookup_keep] at hentry
    split_ifs at hentry with hname
    · obtain rfl := Definition.schemaName_injective hname
      obtain rfl := Option.some.inj hentry
      obtain rfl := Option.some.inj (hschema.symm.trans hfound)
      exact ⟨log, hmade⟩
    · exact h.current e entry found hentry hfound hrevision hoverrides

end Sound

variable {s : Service}

/-- What a detail comes to: the service may keep more than before, and its answer is what the
present texts make. -/
theorem detail_spec (h : Sound s) (d : Definition) :
    (s.detail d).1.result = Detail.served s.options d (s.store.content? d.schemaName)
        (s.store.content? d.overridesName)
      ∧ Sound (s.detail d).2 := by
  unfold detail
  cases hschema : s.store.get? d.schemaName with
  | none => exact ⟨by simp [Store.content?, hschema, Detail.served, notFound], h⟩
  | some schema =>
    have hcontent : s.store.content? d.schemaName = some schema.content := by
      simp [Store.content?, hschema]
    have hoverrides : (s.store.get? d.overridesName).map (·.content)
        = s.store.content? d.overridesName := rfl
    simp only [hoverrides]
    rw [hcontent, Detail.served_eq]
    cases hcached : s.cached? d.schemaName schema.revision
        ((s.store.get? d.overridesName).map (·.revision)) with
    | some detail =>
      obtain ⟨entry, hentry, hsame⟩ := Option.bind_eq_some_iff.mp hcached
      split_ifs at hsame with hrevisions
      obtain rfl := Option.some.inj hsame
      obtain ⟨log, hlog⟩ := h.current d entry schema hentry hschema hrevisions.1.symm
        hrevisions.2.symm
      rw [hlog]
      exact ⟨rfl, h⟩
    | none =>
      simp only
      cases hmade : Detail.ofTexts s.options d schema.content
          (s.store.content? d.overridesName) with
      | error f => exact ⟨rfl, h⟩
      | ok made => exact ⟨rfl, h.keep hschema hmade⟩

/-- Adding leaves the service as it was, or writes overrides and then serves the definition. -/
theorem add_cases (s : Service) (d : Definition) (v : Value) :
    (s.add d v).2 = s
      ∨ ∃ os, (s.add d v).2 = ((s.putOverrides d (Override.text os)).detail d).2 := by
  unfold add
  split
  · exact .inl rfl
  · rename_i os _
    simp only
    split
    · exact .inl rfl
    · split
      · exact .inl rfl
      · split
        · exact .inl rfl
        · exact .inr ⟨os, rfl⟩

theorem Sound.add (h : Sound s) (d : Definition) (v : Value) : Sound (s.add d v).2 := by
  rcases add_cases s d v with hsame | ⟨os, hstored⟩
  · rw [hsame]
    exact h
  · rw [hstored]
    exact (detail_spec (h.put d.overridesName _) d).2

theorem Sound.after (h : Sound s) (op : Operation) : Sound (s.after op) := by
  cases op with
  | putSchema d content => exact h.put d.schemaName content
  | putOverrides d content => exact h.put d.overridesName content
  | add d v => exact h.add d v
  | detail d => exact (detail_spec h d).2
  | clearCache => exact h.clearCache

end Service

end ParamForm
