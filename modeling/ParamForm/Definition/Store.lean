/-!
# Document stores

Texts under names. Every write gets the next number of one counter as its revision, so that a name
with the same revision holds the same text.
-/

namespace ParamForm

/-- A text as it was written at some time. -/
structure StoredDocument where
  content : String
  revision : Nat
  deriving DecidableEq, Inhabited

/-- The documents in the order of their first writes, and the number of writes. -/
structure Store where
  documents : List (String × StoredDocument) := []
  writes : Nat := 0
  deriving Inhabited

namespace Store

/-- The document that is stored under a name. -/
def get? (s : Store) (name : String) : Option StoredDocument :=
  s.documents.lookup name

/-- A store in which a name has another content. The document takes the next revision, and stands
where the one of its name stood, or else last. -/
def put (s : Store) (name content : String) : Store :=
  let document : StoredDocument := ⟨content, s.writes + 1⟩
  { documents :=
      if s.documents.any (·.1 == name) then
        s.documents.map fun d => if d.1 == name then (name, document) else d
      else s.documents ++ [(name, document)]
    writes := s.writes + 1 }

end Store

end ParamForm
