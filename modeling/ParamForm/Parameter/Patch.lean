import ParamForm.Diagnostic
import ParamForm.Failure
import ParamForm.Override.Basic

/-!
# Patches

Overrides laid over a tree. Of several overrides of one key in a list the last wins; one that finds
no parameter, and a list of overrides below a parameter without sub-parameters, is dropped and
reported. The tree keeps its shape.
-/

namespace ParamForm.Parameter

/-- Replaces the override of the same key, or adds it at the end. -/
def replaceByKey (o : Override) : List Override → List Override
  | [] => [o]
  | other :: rest =>
    if other.jsonKey = o.jsonKey then o :: rest else other :: replaceByKey o rest

/-- The overrides that count, one of each key: the last of a key, at the place of the first. -/
def winners (os : List Override) : List Override :=
  os.foldl (fun index o => replaceByKey o index) []

/-- One diagnostic for each override whose key has come before. -/
def duplicates (seen : List String) : List Override → List Diagnostic
  | [] => []
  | o :: os =>
    let rest := duplicates (o.jsonKey :: seen) os
    if seen.contains o.jsonKey then
      ⟨.duplicateOverride, o.jsonKey, "key overridden more than once, last entry wins"⟩ :: rest
    else rest

/-- One diagnostic for each override that is left over. -/
def unmatched (os : List Override) : List Diagnostic :=
  os.map fun o =>
    ⟨.unmatchedOverride, o.jsonKey, "no derived parameter with this key, override discarded"⟩

/-- Takes the override of a key out of a list of winners. -/
def takeByKey (key : String) (os : List Override) : Option Override × List Override :=
  (os.find? (·.jsonKey = key), os.filter (·.jsonKey ≠ key))

mutual

/-- A parameter with an override laid over it. -/
def patchOne : Parameter → Override → Parameter × List Diagnostic
  | ⟨info, subs, extra⟩, o =>
    let (subs, found) := patchSubs info.jsonKey subs o.subParameters
    (⟨info.patched o, subs, extra⟩, found)

/-- The sub-parameters with the overrides of an override laid over them. -/
def patchSubs (key : String) :
    Option (List Parameter) → Option (List Override) →
      Option (List Parameter) × List Diagnostic
  | subs, none => (subs, [])
  | some (p :: ps), some os =>
    let (ps, found) := patchEach (p :: ps) (winners os)
    (some ps, duplicates [] os ++ found)
  | subs, some os =>
    (subs, if os.isEmpty then [] else
      [⟨.structureMismatch, key,
        "override declares sub-parameters but the derived parameter has none"⟩])

/-- Siblings with the winners laid over them, each used for the first parameter of its key. -/
def patchEach : List Parameter → List Override → List Parameter × List Diagnostic
  | [], os => ([], unmatched os)
  | p :: ps, os =>
    let (o?, os) := takeByKey p.jsonKey os
    let (p, found) := match o? with
      | some o => patchOne p o
      | none => (p, [])
    let (ps, foundAfter) := patchEach ps os
    (p :: ps, found ++ foundAfter)

end

/-- A list of siblings with a list of overrides laid over it, and what was found on the way. -/
def patchList (ps : List Parameter) (os : List Override) : List Parameter × List Diagnostic :=
  let (ps, found) := patchEach ps (winners os)
  (ps, duplicates [] os ++ found)

/-- Lays overrides over a tree. The result is a copy, so the tree must be one that can be copied. -/
def patch (ps : List Parameter) (os : List Override) :
    Except Failure (List Parameter × List Diagnostic) :=
  if allCopyable ps then .ok (patchList ps os) else .error .notCopyable

end ParamForm.Parameter
