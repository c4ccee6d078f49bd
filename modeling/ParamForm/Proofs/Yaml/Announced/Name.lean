import ParamForm.Proofs.Yaml.Announced.Year

/-!
# Names that a document has given

Nothing that is read between two nodes changes the names that were given before it, and so the
places of a reading stay ones at which all names stand for what the text announces
(`Cursor.Known`).
-/

namespace ParamForm.Yaml

namespace Cursor

variable {c : Cursor}

@[simp]
theorem names_past (run rest : List Char) : (c.past run rest).names = c.names := rfl

@[simp]
theorem names_skip (p : Char → Bool) : (c.skip p).names = c.names := rfl

@[simp]
theorem names_next : c.next.names = c.names := by
  unfold Cursor.next
  split <;> rfl

@[simp]
theorem names_skipComment : c.skipComment.names = c.names := by
  unfold Cursor.skipComment
  split <;> rfl

theorem names_lineBreak? {d : Cursor} (h : c.lineBreak? = some d) : d.names = c.names := by
  unfold lineBreak? at h
  split at h
  all_goals cases h
  all_goals rfl

@[simp]
theorem names_lineBreak : (c.lineBreak?.getD c).names = c.names := by
  cases h : c.lineBreak? with
  | none => rfl
  | some d => exact names_lineBreak? h

theorem names_separationIn (comments : Bool) (steps : Nat) :
    (separationIn comments c steps).2.names = c.names := by
  induction steps generalizing c with
  | zero => rfl
  | succ steps ih =>
    have hblank : (if comments then c.skipWhite.skipComment else c.skipWhite).names
        = c.names := by
      split
      · exact names_skipComment
      · rfl
    rw [separationIn]
    split
    · exact hblank
    · rename_i e he
      obtain ⟨d, hd, rfl⟩ := Option.map_eq_some_iff.mp he
      refine Eq.trans ?_ ((names_lineBreak? hd).trans hblank)
      exact ih

@[simp]
theorem names_separation (comments : Bool) : (c.separation comments).2.names = c.names :=
  names_separationIn comments _

@[simp]
theorem names_token : c.token.names = c.names :=
  names_separation true

end Cursor

theorem names_directiveWords (c : Cursor) (words : Nat) :
    (directiveWords c words).2.names = c.names := by
  induction words generalizing c with
  | zero => rfl
  | succ words ih =>
    rw [directiveWords]
    simp only
    split_ifs
    · simp
    · simp
    · simp [ih]

theorem names_handleDirective (words : List (List Char)) (c : Cursor) :
    Yields (fun d => d.names = c.names) (handleDirective words c) := by
  unfold handleDirective
  split
  · simp only
    split_ifs
    · exact .fail _ _
    · exact .fail _ _
    · exact .fail _ _
    · split
      · exact .fail _ _
      · exact .ok rfl
  · exact .fail _ _

theorem names_directive (ds : Directives) (c : Cursor) :
    Yields (fun out => out.2.names = c.names) (directive ds c) := by
  have hend (run rest : List Char) (words : Nat) :
      ((directiveWords (c.past run rest) words).2.lineBreak?.getD
        (directiveWords (c.past run rest) words).2).names = c.names := by
    rw [Cursor.names_lineBreak, names_directiveWords, Cursor.names_past]
  unfold directive
  simp only
  split
  case' isTrue => refine (Yields.anything _).bind fun _ _ => ?_
  all_goals
    split
    · exact (Yields.anything _).bind fun _ _ => .ok (hend _ _ _)
    · split
      · exact (names_handleDirective _ _).bind fun d hd => .ok (hd.trans (hend _ _ _))
      · exact .ok (hend _ _ _)

theorem names_directives (ds : Directives) (c : Cursor) (lines : Nat) :
    Yields (fun out => out.2.names = c.names) (directives ds c lines) := by
  induction lines generalizing c ds with
  | zero => exact .ok rfl
  | succ lines ih =>
    rw [directives]
    simp only
    split
    · refine (names_directive ds c.token.next).bind fun out hout out' hout' => ?_
      rw [ih _ _ _ hout', hout, Cursor.names_next, Cursor.names_token]
    · exact .ok Cursor.names_token

theorem names_documentStart (ds : Directives) (c : Cursor) :
    Yields (fun d => d.names = c.names) (documentStart ds c) := by
  unfold documentStart
  split
  · exact .ok Cursor.names_token
  · split
    · exact .fail _ _
    · exact .ok rfl

variable {text : List Char} {c : Cursor}

/-- A place of a text at which all names that were given stand for what the text announces. -/
structure Cursor.Known (text : List Char) (c : Cursor) : Prop where
  within : c.Within text
  names : ∀ name v, (name, v) ∈ c.names.anchors → v.Announced text

theorem Cursor.Known.of_names {d : Cursor} (h : c.Known text) (hwithin : d.Within text)
    (hnames : d.names = c.names) : d.Known text where
  within := hwithin
  names := by
    rw [hnames]
    exact h.names

/-- One more name for what the text announces. -/
theorem Cursor.Known.names_cons (h : c.Known text) (name : String) {v : Linked}
    (hv : v.Announced text) :
    ∀ name' w, (name', w) ∈ (name, v) :: c.names.anchors → w.Announced text := by
  intro name' w hmem
  rcases List.mem_cons.mp hmem with heq | hmem
  · obtain ⟨-, rfl⟩ := Prod.mk.inj heq
    exact hv
  · exact h.names name' w hmem

theorem Cursor.Known.bind (h : c.Known text) (anchor : Option String) {v : Linked}
    (hv : v.Announced text) : (c.bind anchor v).Known text where
  within := h.within.bind anchor v
  names := by
    cases anchor with
    | none => exact h.names
    | some name => exact h.names_cons name hv

theorem Cursor.Known.bindOpen (h : c.Known text) (anchor : Option String) (v : Collection) :
    (c.bindOpen anchor v).2.Known text where
  within := h.within.bindOpen anchor v
  names := by
    cases anchor with
    | none => exact h.names
    | some name => exact h.names_cons name trivial

end ParamForm.Yaml
