import ParamForm.Condition.Check
import ParamForm.Definition.Basic
import ParamForm.Definition.Store
import ParamForm.Override.Document
import ParamForm.Render
import ParamForm.Schema.Document

/-!
# The definition service

Serves the rendered parameters of definitions out of a document store (`Service.detail`) and takes
overrides for them (`Service.add`). What was rendered is kept, and served again as long as both
documents have the revisions that it was rendered from.
-/

namespace ParamForm

/-- A definition with its schema and its parameters. -/
structure Detail where
  definition : Definition
  schema : Value
  parameters : List Parameter
  deriving Inhabited

namespace Detail

/-- The detail that two texts make, the second one being that of the overrides, and the lines of its
render. -/
def ofTexts (options : Options) (d : Definition) (schemaText : String)
    (overridesText : Option String) : Except Failure (Detail × List LogLine) := do
  let schema ← Schema.ofText schemaText
  let overrides ← Override.ofText overridesText
  let r ← Rendering.ofSchema options schema overrides
  .ok (⟨d, schema, r.parameters⟩, r.log overrides.length)

/-- What is handed out of a detail, which is copied first: a tree with an inherited function in it
cannot be. -/
def copy (detail : Detail) : Except Failure Detail :=
  if Parameter.allCopyable detail.parameters then .ok detail else .error .notCopyable

end Detail

/-- A detail that was rendered, and the revisions of its two documents. -/
structure CacheEntry where
  schemaRevision : Nat
  overridesRevision : Option Nat
  detail : Detail
  deriving Inhabited

/-- The service with its store. Entries of the cache stand under the name of the schema document. -/
structure Service where
  options : Options
  store : Store := {}
  cache : List (String × CacheEntry) := []
  deriving Inhabited

/-- What a call came to, the names of the documents that it asked for, and the lines that it
wrote. -/
structure Answer (α : Type) where
  result : Except Failure α
  reads : List String := []
  log : List LogLine := []

namespace Service

/-- A log line of the service. -/
def line (level : Level) (message : String) : LogLine :=
  ⟨.service, level, message⟩

/-- What is kept under a name, if it was rendered from documents of these revisions. -/
def cached? (s : Service) (name : String) (schemaRevision : Nat)
    (overridesRevision : Option Nat) : Option Detail :=
  (s.cache.lookup name).bind fun entry =>
    if entry.schemaRevision = schemaRevision ∧ entry.overridesRevision = overridesRevision then
      some entry.detail
    else none

/-- Keeps a detail in place of what was kept under its name. -/
def keep (s : Service) (name : String) (entry : CacheEntry) : Service :=
  { s with cache := (name, entry) :: s.cache.filter (·.1 ≠ name) }

/-- The service without its cached details. -/
def clearCache (s : Service) : Service :=
  { s with cache := [] }

/-- The service with another schema document stored for a definition. -/
def putSchema (s : Service) (d : Definition) (content : String) : Service :=
  { s with store := s.store.put d.schemaName content }

/-- The service with another override document stored for a definition. -/
def putOverrides (s : Service) (d : Definition) (content : String) : Service :=
  { s with store := s.store.put d.overridesName content }

/-- The failure of a request for a definition without a stored schema. -/
def notFound (d : Definition) : Failure :=
  .schemaNotFound d.type.name d.name

/-- The detail of a definition. A new detail is kept before it is copied. -/
def detail (s : Service) (d : Definition) : Answer Detail × Service :=
  match s.store.get? d.schemaName with
  | none => (⟨.error (notFound d), [d.schemaName], []⟩, s)
  | some schema =>
    let overrides := s.store.get? d.overridesName
    let reads := [d.schemaName, d.overridesName]
    let revision := overrides.map (·.revision)
    match s.cached? d.schemaName schema.revision revision with
    | some detail =>
      (⟨detail.copy, reads, [line .debug ("cache hit for " ++ d.schemaName)]⟩, s)
    | none =>
      let miss := line .debug ("cache miss for " ++ d.schemaName)
      match Detail.ofTexts s.options d schema.content (overrides.map (·.content)) with
      | .error f => (⟨.error f, reads, [miss]⟩, s)
      | .ok (detail, log) =>
        (⟨detail.copy, reads, miss :: log⟩,
          s.keep d.schemaName ⟨schema.revision, revision, detail⟩)

/-- The parameters that a schema text makes without overrides, and the lines of that render. -/
def defaultParameters (options : Options) (schemaText : String) :
    Except Failure (List Parameter × List LogLine) := do
  let schema ← Schema.ofText schemaText
  let r ← Rendering.ofSchema options schema []
  .ok (r.parameters, r.log 0)

/-- Stores overrides that were checked, and serves the parameters with them. -/
def storeOverrides (s : Service) (d : Definition) (os : List Override) :
    Answer (List Parameter) × Service :=
  let stored := line .info ("stored " ++ toString os.length ++ " UI schema overrides as "
    ++ d.overridesName)
  let (answer, s) := (s.putOverrides d (Override.text os)).detail d
  (⟨answer.result.map (·.parameters), answer.reads, stored :: answer.log⟩, s)

/-- Takes a value as the overrides of a definition. Nothing is stored unless it has the shape of
overrides, the definition has a schema, and all conditions hold of its parameters. -/
def add (s : Service) (d : Definition) (v : Value) : Answer (List Parameter) × Service :=
  match Override.check v with
  | .bad issues => (⟨.error (.uiSchema issues), [], []⟩, s)
  | .ok os =>
    let reads := [d.schemaName]
    match s.store.get? d.schemaName with
    | none => (⟨.error (notFound d), reads, []⟩, s)
    | some schema =>
      match defaultParameters s.options schema.content with
      | .error f => (⟨.error f, reads, []⟩, s)
      | .ok (ps, log) =>
        match Override.checkConditions os ps with
        | .error f => (⟨.error f, reads, log⟩, s)
        | .ok _ =>
          let (answer, s) := s.storeOverrides d os
          (⟨answer.result, reads ++ answer.reads, log ++ answer.log⟩, s)

end Service

end ParamForm
