import ParamForm.Proofs.Override.Look
import ParamForm.Proofs.Text.Blank
import ParamForm.Proofs.Yaml.Ending.Document
import ParamForm.Schema.Document

/-!
# What becomes of stored texts

Reading a stored text gives a result, or a failure of its document with the issues that were found,
except where the text holds several documents or a tag in it asks for a text that a value does not
have (`Yaml.Escapes`), and except where a document of overrides is inside itself in a part that
their check looks into (`Override.Endless`, `parses_iff`). The first takes a document mark at the
beginning of a line, and the second an exclamation mark.
-/

namespace ParamForm

/-- Whether reading a kind of document gave a result, or a failure of a document of that kind. -/
def Parses {α : Type} (documentKind : String) (read : Except Failure α) : Prop :=
  (∃ a, read = .ok a) ∨ ∃ issues, read = .error (.document documentKind issues)

/-- Whether reading has an end and gave a result, or a failure of a document of a kind. -/
def Parses? {α : Type} (documentKind : String) (read? : Option (Except Failure α)) : Prop :=
  ∃ read, read? = some read ∧ Parses documentKind read

/-- Whether there is more to a text than a document or a problem. -/
inductive Yaml.Escapes (cs : List Char) : Prop
  | severalDocuments {docs : List Graph} : documents cs = .ok docs → 2 ≤ docs.length → Escapes cs
  | noText : documents cs = .error .noText → Escapes cs

/-- Whether a text of overrides is one of a document in which something that the check looks at is
inside itself, so that the check has no end. A blank text is not loaded at all. -/
structure Override.Endless (text : String) : Prop where
  loaded : (Text.trim text).isEmpty = false
  document : ∃ g, Yaml.documents text.toList = .ok [g] ∧ g.InsideItself view .overrides

section Load

variable {documentKind text : String}

theorem loadDocument_of_problem {p : Yaml.Problem}
    (h : Yaml.documents text.toList = .error (.problem p)) :
    loadDocument documentKind text = .error (.document documentKind [⟨[], p.text⟩]) := by
  rw [loadDocument, Yaml.load, h]
  rfl

theorem parses_loadDocument_iff :
    Parses documentKind (loadDocument documentKind text) ↔ ¬ Yaml.Escapes text.toList := by
  have hends := Yaml.ends_documents text.toList
  cases hdocuments : Yaml.documents text.toList with
  | error fault =>
    rw [hdocuments] at hends
    rcases hends with ⟨p, rfl⟩ | ⟨rfl, -⟩
    · refine iff_of_true (.inr ⟨_, loadDocument_of_problem hdocuments⟩) ?_
      rintro (⟨hdocs, -⟩ | hnoText)
      · cases hdocuments.symm.trans hdocs
      · cases hdocuments.symm.trans hnoText
    · refine iff_of_false ?_ (not_not.mpr (.noText hdocuments))
      simp [Parses, loadDocument, Yaml.load, hdocuments, Except.mapError, Failure.ofFault, bind,
        Except.bind]
  | ok docs =>
    have hnoText : Yaml.documents text.toList ≠ .error .noText := by simp [hdocuments]
    match docs with
    | [] | [v] =>
      refine iff_of_true (.inl ⟨_, by rw [loadDocument, Yaml.load, hdocuments]; rfl⟩) ?_
      rintro (⟨hdocs, hlength⟩ | h)
      · cases hdocuments.symm.trans hdocs
        simp at hlength
      · exact hnoText h
    | v :: w :: docs =>
      refine iff_of_false ?_ (not_not.mpr (.severalDocuments hdocuments (by simp)))
      simp [Parses, loadDocument, Yaml.load, hdocuments, Except.mapError, Failure.ofFault, bind,
        Except.bind]

end Load

theorem parses_bind_iff {α β : Type} {documentKind : String} {read : Except Failure α}
    {next : α → Except Failure β} (hnext : ∀ a, Parses documentKind (next a)) :
    Parses documentKind (read >>= next) ↔ Parses documentKind read := by
  cases read with
  | ok a => exact iff_of_true (hnext a) (.inl ⟨a, rfl⟩)
  | error failure => simp [Parses, bind, Except.bind]

namespace Yaml

theorem mem_of_hasMark {cs : List Char} (h : HasMark cs) : '-' ∈ cs ∨ '.' ∈ cs := by
  obtain ⟨before, rest, rfl, -, hmark⟩ := h
  match rest, hmark with
  | a :: b :: c :: rest, hmark =>
    simp only [startsMark, Bool.and_eq_true, Bool.or_eq_true, decide_eq_true_eq] at hmark
    obtain ⟨⟨⟨rfl | rfl, -⟩, -⟩, -⟩ := hmark
    · exact .inl (List.mem_append_right _ List.mem_cons_self)
    · exact .inr (List.mem_append_right _ List.mem_cons_self)

theorem not_escapes_of_blank {text : String} (h : (Text.trim text).isEmpty = true) :
    ¬ Escapes text.toList := by
  have hblank : ∀ ch ∈ text.toList, Text.isBlank ch = true := Text.isBlank_of_isEmpty_trim h
  have hnone {ch : Char} (hch : Text.isBlank ch = false) (hne : ch ≠ '\n') :
      ch ∉ normalized text.toList := fun hmem => by
    rw [hblank ch (mem_of_mem_normalized hmem hne)] at hch
    cases hch
  have hends := ends_documents text.toList
  rintro (⟨hdocs, hlength⟩ | hnoText)
  · rw [hdocs] at hends
    rcases hends with hone | hmark
    · omega
    · rcases mem_of_hasMark hmark with hmem | hmem
      · exact hnone rfl (by decide) hmem
      · exact hnone rfl (by decide) hmem
  · rw [hnoText] at hends
    rcases hends with ⟨p, hp⟩ | ⟨-, hmem⟩
    · cases hp
    · exact hnone rfl (by decide) hmem

end Yaml

theorem parses_parse_schema_iff {text : String} :
    Parses "schema" (Schema.parse text) ↔ ¬ Yaml.Escapes text.toList := by
  rw [← parses_loadDocument_iff]
  refine parses_bind_iff fun l => ?_
  split
  · exact .inl ⟨l, rfl⟩
  · exact .inr ⟨_, rfl⟩

namespace Override

theorem parses_ofValue (v : Value) : Parses "override" (ofValue v) := by
  unfold ofValue
  split
  · exact .inl ⟨_, rfl⟩
  · exact .inr ⟨_, rfl⟩

theorem parses_of_ofLoaded {l : Yaml.Loaded} {read : Except Failure (List Override)}
    (h : ofLoaded l = some read) : Parses "override" read := by
  unfold ofLoaded at h
  split at h
  · exact .inl ⟨[], (Option.some.inj h).symm⟩
  · exact .inl ⟨[], (Option.some.inj h).symm⟩
  · exact Option.some.inj h ▸ parses_ofValue _
  · obtain ⟨v, -, rfl⟩ := Option.map_eq_some_iff.mp h
    exact parses_ofValue v

variable {text : String}

theorem parse_of_blank (hblank : (Text.trim text).isEmpty = true) :
    parse (some text) = some (.ok []) := by
  simp [parse, hblank]

section Loaded

variable (hblank : (Text.trim text).isEmpty = false)

include hblank

theorem parse_of_loaded {l : Yaml.Loaded} (h : loadDocument "override" text = .ok l) :
    parse (some text) = ofLoaded l := by
  simp [parse, hblank, h]

theorem parse_of_failure {failure : Failure} (h : loadDocument "override" text = .error failure) :
    parse (some text) = some (.error failure) := by
  simp [parse, hblank, h]

theorem endless_of_loaded {l : Yaml.Loaded} (h : loadDocument "override" text = .ok l) :
    ofLoaded l = none ↔ Endless text := by
  cases hdocuments : Yaml.documents text.toList with
  | error fault =>
    rw [loadDocument, Yaml.load, hdocuments] at h
    cases h
  | ok docs =>
    rw [loadDocument, Yaml.load, hdocuments] at h
    match docs with
    | [] =>
      obtain rfl := Except.ok.inj h
      refine iff_of_false nofun ?_
      rintro ⟨-, g, hg, -⟩
      cases hdocuments.symm.trans hg
    | [g] =>
      obtain rfl := Except.ok.inj h
      rw [ofLoaded_eq_none_iff]
      refine ⟨fun hendless => ⟨hblank, g, hdocuments, hendless⟩, ?_⟩
      rintro ⟨-, g', hg', hendless⟩
      cases hdocuments.symm.trans hg'
      exact hendless
    | g :: g' :: docs => cases h

end Loaded

/-- Reading a text has no end exactly if the check of its document has none. -/
theorem parse_eq_none_iff : parse (some text) = none ↔ Endless text := by
  cases hblank : (Text.trim text).isEmpty with
  | true =>
    rw [parse_of_blank hblank]
    exact iff_of_false nofun fun h => by simp [h.loaded] at hblank
  | false =>
    cases hload : loadDocument "override" text with
    | ok l => rw [parse_of_loaded hblank hload, endless_of_loaded hblank hload]
    | error failure =>
      rw [parse_of_failure hblank hload]
      refine iff_of_false nofun ?_
      rintro ⟨-, g, hg, -⟩
      rw [loadDocument, Yaml.load, hg] at hload
      cases hload

theorem parses?_parse_iff :
    Parses? "override" (parse (some text)) ↔ ¬ Yaml.Escapes text.toList ∧ ¬ Endless text := by
  rw [← parse_eq_none_iff]
  cases hblank : (Text.trim text).isEmpty with
  | true =>
    rw [parse_of_blank hblank]
    exact iff_of_true ⟨_, rfl, .inl ⟨_, rfl⟩⟩ ⟨Yaml.not_escapes_of_blank hblank, nofun⟩
  | false =>
    have hparses : Parses "override" (loadDocument "override" text) ↔ ¬ Yaml.Escapes text.toList :=
      parses_loadDocument_iff
    cases hload : loadDocument "override" text with
    | ok l =>
      rw [hload] at hparses
      rw [parse_of_loaded hblank hload, ← hparses]
      refine ⟨fun ⟨read, hread, _⟩ => ⟨.inl ⟨l, rfl⟩, by simp [hread]⟩, fun ⟨_, hends⟩ => ?_⟩
      obtain ⟨read, hread⟩ := Option.ne_none_iff_exists'.mp hends
      exact ⟨read, hread, parses_of_ofLoaded hread⟩
    | error failure =>
      rw [hload] at hparses
      rw [parse_of_failure hblank hload, ← hparses]
      simp [Parses?, Parses]

end Override

theorem parse_of_problem {text : String} {p : Yaml.Problem}
    (h : Yaml.documents text.toList = .error (.problem p)) :
    Schema.parse text = .error (.document "schema" [⟨[], p.text⟩])
      ∧ ((Text.trim text).isEmpty = false →
        Override.parse (some text) = some (.error (.document "override" [⟨[], p.text⟩]))) := by
  constructor
  · rw [Schema.parse, loadDocument_of_problem h]
    rfl
  · exact fun hblank => Override.parse_of_failure hblank (loadDocument_of_problem h)

/-- Reading a stored text gives a result or a failure of its document, with the problem as its issue
if there is one, exactly if the text does not escape, and if it is one of overrides, the check of
its document has an end. A text that holds several documents has a document mark at the beginning of
a line, and one in which a tag asks for a text has an exclamation mark. -/
theorem parses_iff (text : String) :
    (Parses "schema" (Schema.parse text) ↔ ¬ Yaml.Escapes text.toList)
      ∧ (Parses? "override" (Override.parse (some text))
        ↔ ¬ Yaml.Escapes text.toList ∧ ¬ Override.Endless text)
      ∧ (Override.parse (some text) = none ↔ Override.Endless text)
      ∧ Parses? "override" (Override.parse none)
      ∧ (∀ p : Yaml.Problem, Yaml.documents text.toList = .error (.problem p) →
        Schema.parse text = .error (.document "schema" [⟨[], p.text⟩])
          ∧ ((Text.trim text).isEmpty = false →
            Override.parse (some text) = some (.error (.document "override" [⟨[], p.text⟩]))))
      ∧ (∀ docs, Yaml.documents text.toList = .ok docs → 2 ≤ docs.length →
        Yaml.HasMark (Yaml.normalized text.toList))
      ∧ (Yaml.documents text.toList = .error .noText → '!' ∈ text.toList) := by
  have hends := Yaml.ends_documents text.toList
  refine ⟨parses_parse_schema_iff, Override.parses?_parse_iff, Override.parse_eq_none_iff,
    ⟨_, rfl, .inl ⟨_, rfl⟩⟩, fun _ => parse_of_problem, fun docs hdocs hlength => ?_,
    fun hnoText => ?_⟩
  · rw [hdocs] at hends
    exact hends.resolve_left (by omega)
  · rw [hnoText] at hends
    rcases hends with ⟨p, hp⟩ | ⟨-, hmem⟩
    · cases hp
    · exact Yaml.mem_of_mem_normalized hmem (by decide)

/-- Two documents, a tag that asks a number for its text, a list of overrides that has itself below
its first one, and a list that is not closed. -/
theorem parses_iff_escapes :
    (Yaml.Escapes "a: 1\n---\nb: 2\n".toList
        ∧ ¬ Parses "schema" (Schema.parse "a: 1\n---\nb: 2\n")
        ∧ Yaml.HasMark (Yaml.normalized "a: 1\n---\nb: 2\n".toList))
      ∧ (Yaml.Escapes "a: !!float\n  !!int 5".toList
        ∧ ¬ Parses? "override" (Override.parse (some "a: !!float\n  !!int 5")))
      ∧ (Override.Endless "&a\n- jsonKey: b\n  subParameters: *a\n"
        ∧ ¬ Parses? "override" (Override.parse (some "&a\n- jsonKey: b\n  subParameters: *a\n")))
      ∧ ∃ p : Yaml.Problem, p.reason = .streamEndsInFlow
        ∧ Schema.parse "a: [" = .error (.document "schema" [⟨[], p.text⟩]) := by
  obtain ⟨hschema, -, -, -, -, hmark, -⟩ := parses_iff "a: 1\n---\nb: 2\n"
  obtain ⟨-, hoverride, -⟩ := parses_iff "a: !!float\n  !!int 5"
  obtain ⟨-, hcyclic, hnone, -⟩ := parses_iff "&a\n- jsonKey: b\n  subParameters: *a\n"
  obtain ⟨-, -, -, -, hproblem, -⟩ := parses_iff "a: ["
  obtain ⟨docs, hdocs, hlength⟩ : ∃ docs,
      Yaml.documents "a: 1\n---\nb: 2\n".toList = .ok docs ∧ docs.length = 2 := by
    have hread : (match Yaml.documents "a: 1\n---\nb: 2\n".toList with
        | .ok docs => docs.length == 2
        | .error _ => false) = true := by
      decide +kernel
    generalize Yaml.documents _ = read at hread ⊢
    cases read with
    | ok docs => exact ⟨docs, rfl, beq_iff_eq.mp hread⟩
    | error fault => cases hread
  have hseveral := Yaml.Escapes.severalDocuments hdocs hlength.ge
  have hnoText : Yaml.documents "a: !!float\n  !!int 5".toList = .error .noText := by
    have hread : (match Yaml.documents "a: !!float\n  !!int 5".toList with
        | .error .noText => true
        | _ => false) = true := by
      decide +kernel
    generalize Yaml.documents _ = read at hread ⊢
    rcases read with (_ | _ | _) | _
    all_goals first | rfl | cases hread
  have hescapes := Yaml.Escapes.noText hnoText
  have hendless := hnone.mp (Option.isNone_iff_eq_none.mp (by decide +kernel))
  obtain ⟨p, hp, hreason⟩ : ∃ p, Yaml.documents "a: [".toList = .error (.problem p)
      ∧ p.reason = .streamEndsInFlow := by
    have hread : (match Yaml.documents "a: [".toList with
        | .error (.problem p) => p.reason == .streamEndsInFlow
        | _ => false) = true := by
      decide +kernel
    generalize Yaml.documents _ = read at hread ⊢
    rcases read with (p | _ | _) | _
    case error.problem => exact ⟨p, rfl, beq_iff_eq.mp hread⟩
    all_goals cases hread
  exact ⟨⟨hseveral, fun h => hschema.mp h hseveral, hmark docs hdocs hlength.ge⟩,
    ⟨hescapes, fun h => (hoverride.mp h).1 hescapes⟩,
    ⟨hendless, fun h => (hcyclic.mp h).2 hendless⟩, p, hreason, (hproblem p hp).1⟩

end ParamForm
