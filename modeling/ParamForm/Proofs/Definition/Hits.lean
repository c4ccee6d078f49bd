import ParamForm.Proofs.Definition.Add
import ParamForm.Proofs.Definition.Separation
import ParamForm.Proofs.Failure

/-!
# Hits and misses

A detail is served as it was kept exactly if, since the cache was last cleared, the detail of the
same definition was rendered and kept, and neither of its documents was written after that
(`Service.hitLine_mem_log_iff`). What a history did to the documents and to the cache is told by its
events (`Service.events`), among which calls that fail before they keep anything leave no trace.
-/

namespace ParamForm.Service

/-- What happens to documents and to the cache: a document is written, the detail of a definition is
rendered and kept, or the cache is cleared. -/
inductive Event where
  | wrote (name : String)
  | kept (d : Definition)
  | cleared
  deriving DecidableEq

/-- The line that tells of a detail taken from the cache. -/
def hitLine (d : Definition) : LogLine :=
  line .debug ("cache hit for " ++ d.schemaName)

/-- The line that tells of a detail to be made. -/
def missLine (d : Definition) : LogLine :=
  line .debug ("cache miss for " ++ d.schemaName)

/-- Whether a detail that is asked for now is rendered and kept: it is a miss, and the two texts
make a detail, be it one that can be copied or not. -/
def keepsDetail (s : Service) (d : Definition) : Bool :=
  decide (missLine d ∈ (s.detail d).1.log)
    && match s.store.content? d.schemaName with
      | none => false
      | some text => (Detail.ofTexts s.options d text (s.store.content? d.overridesName)).isOk

/-- What a request for a detail adds to the events: the detail, if it is made and kept. -/
def detailEvents (s : Service) (d : Definition) : List Event :=
  if s.keepsDetail d then [.kept d] else []

/-- The overrides that a value is taken for, if an addition comes to store it. -/
def accepted? (s : Service) (d : Definition) (v : Value) : Option (List Override) :=
  match Override.check v with
  | .bad _ => none
  | .ok os =>
    match s.store.get? d.schemaName with
    | none => none
    | some schema =>
      match defaultParameters s.options schema.content with
      | .error _ => none
      | .ok (ps, _) =>
        match Override.checkConditions os ps with
        | .error _ => none
        | .ok _ => some os

/-- What happens in an operation, in order. An addition that stores overrides asks for the detail
after that. -/
def eventsOf (s : Service) : Operation → List Event
  | .putSchema d _ => [.wrote d.schemaName]
  | .putOverrides d _ => [.wrote d.overridesName]
  | .add d v =>
    match s.accepted? d v with
    | none => []
    | some os => .wrote d.overridesName :: (s.putOverrides d (Override.text os)).detailEvents d
  | .detail d => s.detailEvents d
  | .clearCache => [.cleared]

/-- What happens in a history, in order. -/
def events (s : Service) : List Operation → List Event
  | [] => []
  | op :: ops => s.eventsOf op ++ events (s.after op) ops

/-- Whether an event settles what is kept of a definition, whatever was kept before it. -/
def Event.Decides (d : Definition) (e : Event) : Prop :=
  e = .kept d ∨ e = .cleared ∨ e = .wrote d.schemaName ∨ e = .wrote d.overridesName

instance (d : Definition) (e : Event) : Decidable (e.Decides d) :=
  inferInstanceAs (Decidable (_ ∨ _ ∨ _ ∨ _))

/-- Whether the detail of a definition was rendered and kept, and since the latest time that it was
neither of its documents was written, nor the cache cleared. -/
def Fresh (d : Definition) (es : List Event) : Prop :=
  ∃ before after, es = before ++ .kept d :: after ∧ ∀ e ∈ after, ¬ e.Decides d

variable {s : Service} {d : Definition} {es : List Event}

/-- The last event decides, or what was so before it is still so. -/
theorem fresh_concat_iff {e : Event} :
    Fresh d (es ++ [e]) ↔ e = .kept d ∨ (Fresh d es ∧ ¬ e.Decides d) := by
  constructor
  · rintro ⟨before, after, heq, hafter⟩
    rcases List.eq_nil_or_concat' after with rfl | ⟨after, last, rfl⟩
    · exact .inl (List.append_inj_right' heq rfl |> List.singleton_inj.mp)
    · rw [← List.cons_append, ← List.append_assoc] at heq
      obtain ⟨rfl, hlast⟩ := List.append_inj' heq rfl
      obtain rfl := List.singleton_inj.mp hlast
      refine .inr ⟨⟨before, after, rfl, fun e he => hafter e (List.mem_append_left _ he)⟩, ?_⟩
      exact hafter e (List.mem_append_right _ List.mem_cons_self)
  · rintro (rfl | ⟨⟨before, after, rfl, hafter⟩, hlast⟩)
    · exact ⟨es, [], rfl, by simp⟩
    · refine ⟨before, after ++ [e], by simp, fun e' he' => ?_⟩
      rcases List.mem_append.mp he' with he' | he'
      · exact hafter e' he'
      · obtain rfl := List.mem_singleton.mp he'
        exact hlast

theorem hitLine_ne_missLine (d e : Definition) : hitLine d ≠ missLine e := by
  intro h
  have hmessage := congrArg (fun l => l.message.toList) h
  simp [hitLine, missLine, line, String.toList_append] at hmessage

/-- A render writes no line of the service. -/
theorem line_notMem_log (r : Rendering) (count : Nat) (level : Level) (message : String) :
    line level message ∉ r.log count := by
  intro hmem
  have hscope : (line level message).scope = .engine := by
    rcases List.mem_cons.mp hmem with heq | hmem
    · rw [heq]
    · obtain ⟨diagnostic, -, heq⟩ := List.mem_map.mp hmem
      rw [← heq]
  cases hscope

theorem line_notMem_of_ofTexts {options : Options} {text : String} {overridesText : Option String}
    {detail : Detail} {log : List LogLine}
    (h : Detail.ofTexts options d text overridesText = .ok (detail, log)) (level : Level)
    (message : String) : line level message ∉ log := by
  obtain ⟨schema, -, h⟩ := exists_ok_of_bind h
  obtain ⟨overrides, -, h⟩ := exists_ok_of_bind h
  obtain ⟨r, -, h⟩ := exists_ok_of_bind h
  obtain ⟨-, rfl⟩ := Prod.mk.inj (Except.ok.inj h)
  exact line_notMem_log r _ level message

theorem kept?_of_content?_none (h : s.store.content? d.schemaName = none) : s.kept? d = none := by
  rw [kept?, Option.map_eq_none_iff.mp h, Option.bind_none]

/-- The ways in which a detail goes: what was there, what it wrote, and what is kept after it. -/
inductive DetailStep (s : Service) (d : Definition) : Prop where
  | absent (content : s.store.content? d.schemaName = none) (kept : s.kept? d = none)
      (log : (s.detail d).1.log = []) (after : (s.detail d).2.kept? d = none)
  | served {text : String} {detail : Detail} (content : s.store.content? d.schemaName = some text)
      (kept : s.kept? d = some detail) (log : (s.detail d).1.log = [hitLine d])
      (after : (s.detail d).2.kept? d = some detail)
  | failed {text : String} {f : Failure} (content : s.store.content? d.schemaName = some text)
      (kept : s.kept? d = none)
      (made : Detail.ofTexts s.options d text (s.store.content? d.overridesName) = .error f)
      (log : (s.detail d).1.log = [missLine d]) (after : (s.detail d).2.kept? d = none)
  | rendered {text : String} {detail : Detail} {lines : List LogLine}
      (content : s.store.content? d.schemaName = some text) (kept : s.kept? d = none)
      (made : Detail.ofTexts s.options d text (s.store.content? d.overridesName)
        = .ok (detail, lines))
      (log : (s.detail d).1.log = missLine d :: lines)
      (after : (s.detail d).2.kept? d = some detail)

theorem detailStep (s : Service) (d : Definition) : DetailStep s d := by
  obtain ⟨hanswer, hview⟩ := detail_view s d
  have hlog : (s.detail d).1.log = ((s.view d).detail s.options d).1.log := by rw [hanswer]
  have hafter : (s.detail d).2.kept? d = ((s.view d).detail s.options d).2.kept :=
    congrArg View.kept hview
  cases hcontent : s.store.content? d.schemaName with
  | none =>
    have hkept := kept?_of_content?_none hcontent
    simp only [view, hcontent, hkept, View.detail] at hlog hafter
    exact .absent hcontent hkept hlog hafter
  | some text =>
    cases hkept : s.kept? d with
    | some detail =>
      simp only [view, hcontent, hkept, View.detail] at hlog hafter
      exact .served hcontent hkept hlog hafter
    | none =>
      cases hmade : Detail.ofTexts s.options d text (s.store.content? d.overridesName) with
      | error f =>
        simp only [view, hcontent, hkept, View.detail, hmade] at hlog hafter
        exact .failed hcontent hkept hmade hlog hafter
      | ok made =>
        simp only [view, hcontent, hkept, View.detail, hmade] at hlog hafter
        exact .rendered hcontent hkept hmade hlog hafter

/-- A detail writes one of the two lines, if there is a schema: the one for what is kept, or the
other. -/
theorem lines_detail (s : Service) (d : Definition) :
    (hitLine d ∈ (s.detail d).1.log ↔ (s.kept? d).isSome = true)
      ∧ (missLine d ∈ (s.detail d).1.log
        ↔ (s.store.content? d.schemaName).isSome = true ∧ ¬ (s.kept? d).isSome = true) := by
  have hne := hitLine_ne_missLine d d
  cases detailStep s d with
  | absent content kept log _ => simp [content, kept, log]
  | served content kept log _ => simp [kept, log, hne.symm]
  | failed content kept _ log _ => simp [content, kept, log, hne]
  | rendered content kept made log _ =>
    have hhit : hitLine d ∉ _ := line_notMem_of_ofTexts made _ _
    simp [content, kept, log, hne, hhit]

/-- After a detail something is kept if it was before, or if this detail is. -/
theorem isSome_kept?_detail (s : Service) (d : Definition) :
    ((s.detail d).2.kept? d).isSome = true
      ↔ (s.kept? d).isSome = true ∨ s.keepsDetail d = true := by
  have hmiss := (lines_detail s d).2
  cases detailStep s d with
  | absent content kept _ after => simp [keepsDetail, content, kept, after]
  | served content kept _ after => simp [kept, after]
  | failed content kept made _ after =>
    simp [keepsDetail, content, kept, after, made, Except.isOk, Except.toBool]
  | rendered content kept made _ after =>
    simp [keepsDetail, hmiss, content, kept, after, made, Except.isOk, Except.toBool]

theorem accepted?_of_accepts {v : Value} {os : List Override} {ps : List Parameter}
    (h : s.Accepts d v os ps) : s.accepted? d v = some os := by
  obtain ⟨hshape, ⟨document, log, hdocument, hdefault⟩, hconditions⟩ := h
  simp only [accepted?, hshape, hdocument, hdefault, hconditions]

theorem exists_accepts_of_accepted? {v : Value} {os : List Override}
    (h : s.accepted? d v = some os) : ∃ ps, s.Accepts d v os ps := by
  unfold accepted? at h
  split at h
  · cases h
  · rename_i os' hshape
    split at h
    · cases h
    · rename_i document hdocument
      split at h
      · cases h
      · rename_i ps log hdefault
        split at h
        · cases h
        · rename_i hconditions
          obtain rfl := Option.some.inj h
          exact ⟨ps, hshape, ⟨document, log, hdocument, hdefault⟩, hconditions⟩

/-- The service keeps something of a definition exactly if what happened says so. -/
def Tracks (s : Service) (es : List Event) : Prop :=
  ∀ d, (s.kept? d).isSome = true ↔ Fresh d es

namespace Tracks

theorem put (h : Tracks s es) (hs : Sound s) (name content : String) :
    Tracks { s with store := s.store.put name content } (es ++ [.wrote name]) := by
  intro d
  rw [fresh_concat_iff, ← h d]
  by_cases hname : name = d.schemaName ∨ name = d.overridesName
  · rw [kept?_put_own hs name content hname]
    simp [Event.Decides, hname]
  · obtain ⟨hschema, hoverrides⟩ := not_or.mp hname
    have hview := view_put_of_ne (s := s) content hschema hoverrides
    rw [show Service.kept? _ d = s.kept? d from congrArg View.kept hview]
    simp [Event.Decides, hname]

theorem detail (h : Tracks s es) (d : Definition) :
    Tracks (s.detail d).2 (es ++ s.detailEvents d) := by
  intro e
  by_cases he : d = e
  · subst he
    rw [isSome_kept?_detail, h d, detailEvents]
    split
    · rename_i hkeeps
      simp [hkeeps, fresh_concat_iff]
    · rename_i hkeeps
      simp [hkeeps]
  · rw [show (s.detail d).2.kept? e = s.kept? e from congrArg View.kept (view_detail_of_ne s he),
      h e, detailEvents]
    split
    · simp [fresh_concat_iff, Event.Decides, he]
    · simp

theorem clearCache (s : Service) (es : List Event) : Tracks s.clearCache (es ++ [.cleared]) := by
  intro d
  have hnone : s.clearCache.kept? d = none := by
    rw [kept?, Option.bind_eq_none_iff]
    exact fun _ _ => rfl
  simp [hnone, fresh_concat_iff, Event.Decides]

theorem add (h : Tracks s es) (hs : Sound s) (d : Definition) (v : Value) :
    Tracks (s.add d v).2 (es ++ s.eventsOf (.add d v)) := by
  cases haccepted : s.accepted? d v with
  | none =>
    have hnone : ∀ os ps, ¬ s.Accepts d v os ps := by
      intro os ps haccepts
      rw [accepted?_of_accepts haccepts] at haccepted
      cases haccepted
    rw [(add_of_not_accepts hnone).2]
    simpa [eventsOf, haccepted] using h
  | some os =>
    obtain ⟨ps, haccepts⟩ := exists_accepts_of_accepted? haccepted
    have hput := h.put hs d.overridesName (Override.text os)
    have hdetail := detail hput d
    rw [List.append_assoc] at hdetail
    rw [(add_of_accepts haccepts).2, eventsOf, haccepted]
    exact hdetail

/-- What one operation does. -/
theorem after (h : Tracks s es) (hs : Sound s) (op : Operation) :
    Tracks (s.after op) (es ++ s.eventsOf op) := by
  cases op with
  | putSchema d content => exact h.put hs d.schemaName content
  | putOverrides d content => exact h.put hs d.overridesName content
  | add d v => exact h.add hs d v
  | detail d => exact h.detail d
  | clearCache => exact .clearCache s es

theorem foldl (h : Tracks s es) (hs : Sound s) (ops : List Operation) :
    Tracks (ops.foldl Service.after s) (es ++ s.events ops) := by
  induction ops generalizing s es with
  | nil => simpa [events] using h
  | cons op ops ih =>
    rw [events, ← List.append_assoc]
    exact ih (h.after hs op) (hs.after op)

end Tracks

end ParamForm.Service
