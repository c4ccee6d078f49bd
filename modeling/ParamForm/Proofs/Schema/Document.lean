import ParamForm.Proofs.Yaml.Announced.Document
import ParamForm.Proofs.Yaml.Date
import ParamForm.Schema.Document

/-!
# What is taken as a schema

The check for a mapping asks for an object that is no list, and points of time and binary data are
such objects: a text of one of these is taken as a schema too, and apart from that a text is taken
exactly if it is one of a mapping, also if that is inside itself (`Schema.onlyMappings_iff`). Every
date is such a text, and none without an exclamation mark and without a year.
-/

namespace ParamForm

namespace Yaml.Loaded

/-- What a mapping is loaded as. -/
inductive IsMapping : Loaded → Prop
  | tree (fields : Fields) : IsMapping (.tree (.record fields))
  | cyclic {g : Graph} {fields : Fields Linked} :
    g.root.target g.collections = .record fields → IsMapping (.cyclic g)

/-- What a scalar is loaded as if it is an object. -/
inductive IsObjectScalar : Loaded → Prop
  | date (ms : Int) : IsObjectScalar (.tree (.date ms))
  | bytes (bs : List UInt8) : IsObjectScalar (.tree (.bytes bs))

instance : DecidablePred IsObjectScalar
  | .tree (.date ms) => isTrue (.date ms)
  | .tree (.bytes bs) => isTrue (.bytes bs)
  | .tree .absent | .tree .null | .tree (.bool _) | .tree (.number _) | .tree (.text _)
  | .tree (.list _) | .tree (.record _) | .cyclic _ => isFalse nofun

theorem isObject_iff {l : Loaded} : l.isObject = true ↔ l.IsMapping ∨ l.IsObjectScalar := by
  constructor
  · intro h
    cases l with
    | tree v =>
      cases v with
      | record fields => exact .inl (.tree fields)
      | date ms => exact .inr (.date ms)
      | bytes bs => exact .inr (.bytes bs)
      | _ => cases h
    | cyclic g =>
      rw [isObject] at h
      split at h
      · exact .inl (.cyclic ‹_›)
      · cases h
  · rintro (h | h)
    · cases h with
      | tree fields => rfl
      | cyclic hroot => rw [isObject, hroot]
    · cases h
      · rfl
      · rfl

theorem IsObjectScalar.not_isMapping {l : Loaded} (h : l.IsObjectScalar) : ¬ l.IsMapping := by
  cases h
  · nofun
  · nofun

end Yaml.Loaded

namespace Schema

open Yaml (Loaded)

/-- How a text is refused that is not one of a mapping. -/
def notMapping : Failure :=
  .document "schema" [⟨[], "schema document must be a mapping"⟩]

variable {text : String} {l : Loaded}

theorem parse_of_load (h : Yaml.load text = .ok l) :
    parse text = if l.isObject then .ok l else .error notMapping := by
  rw [parse, loadDocument, h]
  rfl

theorem parse_of_fault {fault : Yaml.Fault} (h : Yaml.load text = .error fault) :
    parse text = .error (.ofFault "schema" fault) := by
  rw [parse, loadDocument, h]
  rfl

theorem parse_eq_ok_iff :
    parse text = .ok l ↔ Yaml.load text = .ok l ∧ (l.IsMapping ∨ l.IsObjectScalar) := by
  rw [← Loaded.isObject_iff]
  cases hload : Yaml.load text with
  | error fault => simp [parse_of_fault hload]
  | ok found =>
    rw [parse_of_load hload]
    split_ifs with hobject
    · refine ⟨fun h => ?_, fun h => ?_⟩
      · obtain rfl := Except.ok.inj h
        exact ⟨rfl, hobject⟩
      · obtain rfl := Except.ok.inj h.1
        rfl
    · refine ⟨nofun, fun h => ?_⟩
      obtain rfl := Except.ok.inj h.1
      exact absurd h.2 hobject

theorem parse_of_not_isObject (h : Yaml.load text = .ok l) (hmapping : ¬ l.IsMapping)
    (hscalar : ¬ l.IsObjectScalar) : parse text = .error notMapping := by
  rw [parse_of_load h, if_neg fun hobject => ?_]
  exact (Loaded.isObject_iff.mp hobject).elim hmapping hscalar

theorem exists_load {p : Loaded → Bool} (h : (Yaml.load text).toOption.any p = true) :
    ∃ l, Yaml.load text = .ok l ∧ p l = true := by
  cases hload : Yaml.load text with
  | error fault => simp [hload, Except.toOption] at h
  | ok l => exact ⟨l, rfl, by simpa [hload, Except.toOption] using h⟩

/-- Whether a text is taken exactly if it is one of a mapping, and refused as a schema document if
it is one of anything else. -/
structure OnlyMappings (text : String) : Prop where
  taken : ∀ l, parse text = .ok l ↔ Yaml.load text = .ok l ∧ l.IsMapping
  refused : ∀ l, Yaml.load text = .ok l → ¬ l.IsMapping →
    ∃ issues, parse text = .error (.document "schema" issues)

theorem onlyMappings_of_not_isObjectScalar
    (h : ∀ l, Yaml.load text = .ok l → ¬ l.IsObjectScalar) : OnlyMappings text where
  taken l := by
    rw [parse_eq_ok_iff]
    exact ⟨fun ⟨hload, hobject⟩ => ⟨hload, hobject.resolve_right (h l hload)⟩,
      fun ⟨hload, hmapping⟩ => ⟨hload, .inl hmapping⟩⟩
  refused l hload hmapping := ⟨_, parse_of_not_isObject hload hmapping (h l hload)⟩

theorem announced_of_isObjectScalar (hload : Yaml.load text = .ok l) (hscalar : l.IsObjectScalar) :
    '!' ∈ text.toList ∨ Yaml.HasYear text.toList ∧ ∃ ms, l = .tree (.date ms) := by
  by_cases hmark : '!' ∈ text.toList
  · exact .inl hmark
  · cases hscalar with
    | date ms => exact .inr ⟨Yaml.announced_of_load hload hmark, ms, rfl⟩
    | bytes bs => exact (Yaml.announced_of_load hload hmark).elim

/-- A text is taken as a schema, as what it is loaded as, if it is one of a mapping, a point of time
or binary data. The last two take an exclamation mark in the text, or for a point of time four
digits and a hyphen after them, and every date is a text of a point of time. Anything else is
refused: what is no such object as no mapping, and what cannot be loaded with what was found. -/
theorem onlyMappings_iff (text : String) :
    (OnlyMappings text ↔ ∀ l, Yaml.load text = .ok l → ¬ l.IsObjectScalar)
      ∧ (∀ l, parse text = .ok l
        ↔ Yaml.load text = .ok l ∧ (l.IsMapping ∨ l.IsObjectScalar))
      ∧ (∀ l, Yaml.load text = .ok l → ¬ l.IsMapping → ¬ l.IsObjectScalar →
        parse text = .error notMapping)
      ∧ (∀ fault, Yaml.load text = .error fault →
        parse text = .error (.ofFault "schema" fault))
      ∧ (∀ l, Yaml.load text = .ok l → l.IsObjectScalar →
        '!' ∈ text.toList ∨ Yaml.HasYear text.toList ∧ ∃ ms, l = .tree (.date ms))
      ∧ ∀ ms, Yaml.date? text.toList = some ms → parse text = .ok (.tree (.date ms)) := by
  refine ⟨⟨fun h l hload hscalar => ?_, onlyMappings_of_not_isObjectScalar⟩,
    fun l => parse_eq_ok_iff, fun l => parse_of_not_isObject, fun fault => parse_of_fault,
    fun l => announced_of_isObjectScalar, fun ms hdate => ?_⟩
  · have htaken := parse_eq_ok_iff.mpr ⟨hload, .inr hscalar⟩
    exact hscalar.not_isMapping ((h.taken l).mp htaken).2
  · have hload := Yaml.load_of_date? hdate
    rw [String.ofList_toList] at hload
    exact parse_eq_ok_iff.mpr ⟨hload, .inr (.date ms)⟩

/-- A date and binary data are taken, a mapping too, and a list is refused. -/
theorem onlyMappings_iff_date :
    (parse "2001-12-14" = .ok (.tree (.date 1008288000000)) ∧ ¬ OnlyMappings "2001-12-14")
      ∧ ((∃ l, parse "!!binary aGVsbG8=" = .ok l ∧ l.IsObjectScalar)
        ∧ ¬ OnlyMappings "!!binary aGVsbG8=")
      ∧ OnlyMappings "a: 1" ∧ parse "- a" = .error notMapping := by
  obtain ⟨hdate, -, -, -, -, htaken⟩ := onlyMappings_iff "2001-12-14"
  obtain ⟨hbytes, htaken', -⟩ := onlyMappings_iff "!!binary aGVsbG8="
  obtain ⟨hmapping, -, -, -, hannounced, -⟩ := onlyMappings_iff "a: 1"
  obtain ⟨-, -, hrefused, -⟩ := onlyMappings_iff "- a"
  have hdateText := htaken 1008288000000 (by decide +kernel)
  have hdateLoad := (parse_eq_ok_iff.mp hdateText).1
  obtain ⟨l, hbytesLoad, hscalar⟩ :=
    exists_load (by decide +kernel :
      (Yaml.load "!!binary aGVsbG8=").toOption.any (fun l => decide l.IsObjectScalar) = true)
  have hscalar := of_decide_eq_true hscalar
  obtain ⟨l', hlistLoad, hlist⟩ :=
    exists_load (by decide +kernel : (Yaml.load "- a").toOption.any (fun l => !l.isObject) = true)
  have hlist : ¬ (l'.IsMapping ∨ l'.IsObjectScalar) := by
    rw [← Loaded.isObject_iff]
    simpa using hlist
  refine ⟨⟨hdateText, fun h => hdate.mp h _ hdateLoad (.date _)⟩,
    ⟨⟨l, (htaken' l).mpr ⟨hbytesLoad, .inr hscalar⟩, hscalar⟩,
      fun h => hbytes.mp h l hbytesLoad hscalar⟩,
    hmapping.mpr fun l hload hscalar => ?_,
    hrefused l' hlistLoad (fun h => hlist (.inl h)) fun h => hlist (.inr h)⟩
  rcases hannounced l hload hscalar with hmark | ⟨⟨year, -, -, hyear⟩, -⟩
  · exact absurd hmark (by decide)
  · exact absurd (hyear.subset (List.mem_append_right _ List.mem_cons_self)) (by decide)

end Schema

end ParamForm
