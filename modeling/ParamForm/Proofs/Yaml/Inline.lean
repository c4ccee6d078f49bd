import ParamForm.Proofs.Yaml.Node

/-!
# Nodes on one line

A scalar or an empty collection that is written on one line is read up to its end (`Inline`): as a
key, as the value of a key, and where it is first tried as the key of a block mapping. The last
takes a level of nesting more (`Inline.readInside_compact`, `readInside_tooDeep`).
-/

namespace ParamForm.Yaml

/-- A place that no document mark begins, with no tab before it on its line. -/
structure Cursor.Ready (c : Cursor) : Prop where
  tab : c.tab = none
  started : c.lineStart ≤ c.position
  unmarked : c.atMark = false

theorem Cursor.ready_of_lt {c : Cursor} (htab : c.tab = none) (h : c.lineStart < c.position) :
    c.Ready where
  tab := htab
  started := Nat.le_of_lt h
  unmarked := Cursor.atMark_eq_false h

/-- A text on one line that is read as a value wherever it stands. -/
structure Inline (text : List Char) (v : Linked) : Prop where
  opens : opensContent text = true
  noNull : '\x00' ∉ text
  reads : ∃ tag kind, tag ≠ some CoreType.merge.tag ∧
    ∀ (child : Reader) (floor : Nat) (context : Context) (c : Cursor) (rest : List Char),
      context ≠ .flowIn → c.Ready → Follows floor rest → c.rest = text ++ rest →
      readInside child floor context false c = .ok (⟨tag, kind, v, true⟩, c.past text rest)

namespace BlockMapping

variable {child : Reader} {column floor : Nat} {b : BlockMapping} {c d : Cursor} {steps : Nat}

/-- What follows a step of a mapping that began on a line. -/
def goOn (child : Reader) (column floor line steps : Nat) :
    Step × Cursor → Except Fault (Outcome × Cursor)
  | (.ended b, d) => b.finish d
  | (.single node, d) => .ok (.single node, d)
  | (.pair b, d) =>
    if isMisplaced column line d.token then d.token.fail .badPairIndentation
    else if d.token.indent < column then b.finish d.token
    else b.read child column floor d.token steps

theorem read_succ (hne : c.rest ≠ []) (htab : c.tab = none) :
    b.read child column floor c (steps + 1)
      = b.step child column floor c >>= goOn child column floor c.line steps := by
  have hempty : c.rest.isEmpty = false := by simpa using hne
  have hcheck : checkTab c = .ok () := by simp [checkTab, htab]
  rw [read]
  simp only [hempty, hcheck, bind, Except.bind]
  rcases b.step child column floor c with f | ⟨_ | _ | _, d⟩ <;>
    cases b.waiting <;> simp [goOn]

theorem step_of_opensContent (h : opensContent c.rest = true) :
    b.step child column floor c = b.implicitPair child column floor c := by
  have hquestion := startsExplicit_of_opensContent h (.inl rfl)
  have hcolon := startsExplicit_of_opensContent h (.inr rfl)
  simp [step, hquestion, hcolon]

end BlockMapping

theorem blockSequence?_of_opensContent {child : Reader} {c : Cursor}
    (h : opensContent c.rest = true) : blockSequence? child none c = .ok none := by
  simp [blockSequence?, startsEntry_of_opensContent h]

section Attempt

variable {child : Reader} {floor : Nat} {c d : Cursor} (hopens : opensContent c.rest = true)
  (htab : c.tab = none)
include hopens htab

theorem blockMapping_eq :
    blockMapping child floor none c
      = BlockMapping.implicitPair child c.column floor { mark := c.mark } c
          >>= BlockMapping.goOn child c.column floor c.line c.rest.length
          >>= fun r => .ok r := by
  have hread :
      BlockMapping.read child c.column floor { mark := c.mark } c (c.rest.length + 1) = _ :=
    BlockMapping.read_succ (ne_nil_of_opensContent hopens) htab
  rw [BlockMapping.step_of_opensContent hopens] at hread
  simp only [blockMapping, Cursor.bindOpen_none, hread]
  congr 1
  funext r
  obtain ⟨_ | _ | _, d⟩ := r <;> rfl

theorem blockMapping_single {key : Node}
    (hkey : child ⟨floor + 1, .flowOut, false, true⟩ c = .ok (key, d))
    (hpresent : key.present = true) (hline : d.line = c.line)
    (hd : startsWith isBreak d.rest = true) :
    blockMapping child floor none c = .ok (.single key, d) := by
  have hwhite : startsWith isWhite d.rest = false ∧ startsWith (· = ':') d.rest = false := by
    cases hr : d.rest with
    | nil => exact ⟨rfl, rfl⟩
    | cons ch rest =>
      rw [hr] at hd
      simp only [startsWith, isBreak, Bool.or_eq_true, decide_eq_true_eq] at hd ⊢
      rcases hd with rfl | rfl <;> decide
  rw [blockMapping_eq hopens htab]
  simp [BlockMapping.implicitPair, hkey, hpresent, hline, Cursor.skip_of_startsWith hwhite.1,
    hwhite.2, BlockMapping.goOn, bind, Except.bind]

/-- A key reaches no further than its line. -/
theorem blockMapping_single_of_line_ne {key : Node}
    (hkey : child ⟨floor + 1, .flowOut, false, true⟩ c = .ok (key, d))
    (hpresent : key.present = true) (hline : d.line ≠ c.line) :
    blockMapping child floor none c = .ok (.single key, d) := by
  rw [blockMapping_eq hopens htab]
  simp [BlockMapping.implicitPair, hkey, hpresent, hline, BlockMapping.goOn, bind, Except.bind]

theorem readInside_of_single {key : Node} (context : Context)
    (hsingle : blockMapping child floor none c = .ok (.single key, d)) :
    readInside child floor context true c = .ok (⟨none, key.kind, key.value, true⟩, d) := by
  have hempty : c.rest.isEmpty = false := by simpa using ne_nil_of_opensContent hopens
  simp [readInside, insideDraft, blockSequence?_of_opensContent hopens, htab, hempty, hsingle,
    resolve, bind, Except.bind, pure, Except.pure]

/-- What looks like a first key, and has no colon after it, is the node itself. -/
theorem readInside_single {key : Node} (context : Context)
    (hkey : child ⟨floor + 1, .flowOut, false, true⟩ c = .ok (key, d))
    (hpresent : key.present = true) (hline : d.line = c.line)
    (hd : startsWith isBreak d.rest = true) :
    readInside child floor context true c = .ok (⟨none, key.kind, key.value, true⟩, d) :=
  readInside_of_single hopens htab context (blockMapping_single hopens htab hkey hpresent hline hd)

theorem blockMapping_nothing {key : Node}
    (hkey : child ⟨floor + 1, .flowOut, false, true⟩ c = .ok (key, d))
    (habsent : key.present = false) :
    blockMapping child floor none c = .ok (.nothing, d) := by
  rw [blockMapping_eq hopens htab]
  simp [BlockMapping.implicitPair, hkey, habsent, BlockMapping.goOn, BlockMapping.finish,
    BlockMapping.settle, bind, Except.bind]

theorem blockMapping_fault {f : Fault}
    (hkey : child ⟨floor + 1, .flowOut, false, true⟩ c = .error f) :
    blockMapping child floor none c = .error f := by
  rw [blockMapping_eq hopens htab]
  simp [BlockMapping.implicitPair, hkey, bind, Except.bind]

theorem readInside_fault {f : Fault} (context : Context)
    (hkey : child ⟨floor + 1, .flowOut, false, true⟩ c = .error f) :
    readInside child floor context true c = .error f := by
  have hempty : c.rest.isEmpty = false := by simpa using ne_nil_of_opensContent hopens
  simp [readInside, insideDraft, blockSequence?_of_opensContent hopens, htab, hempty,
    blockMapping_fault hopens htab hkey, bind, Except.bind]

end Attempt

/-- At the greatest depth there is no level left to try a content as a key. -/
theorem readInside_tooDeep {floor : Nat} {context : Context} {c : Cursor} (htab : c.tab = none)
    (hopens : opensContent c.rest = true) :
    readInside (Node.read 0) floor context true c = c.fail .tooDeep :=
  readInside_fault hopens htab context rfl

namespace Inline

variable {text : List Char} {v : Linked} (h : Inline text v)
include h

/-- As a key, before a colon. -/
theorem read_key (depth floor : Nat) {c : Cursor} {rest : List Char}
    (hc : c.rest = text ++ ':' :: rest)
    (hready : c.Ready) (hrest : startsWith isSpacing rest = true) :
    ∃ key, Node.read (depth + 1) ⟨floor + 1, .flowOut, false, true⟩ c
        = .ok (key, c.past text (':' :: rest))
      ∧ key.value = v ∧ key.present = true ∧ key.tag ≠ some CoreType.merge.tag := by
  obtain ⟨tag, kind, htag, hread⟩ := h.reads
  have hopens := opensContent_append h.opens (':' :: rest)
  refine ⟨⟨tag, kind, v, true⟩, ?_, rfl, rfl, htag⟩
  rw [read_flow rfl (by rwa [hc])]
  exact hread _ _ _ _ _ (by decide) hready (.colon hrest) hc

variable {floor k : Nat} (context : Context) {c : Cursor} {content : List Char}
  (hready : c.Ready) (hk : k < floor) (hcontent : startsToken content = true)
  (hc : c.rest = text ++ '\n' :: (List.replicate k ' ' ++ content))
include hready hk hcontent hc

/-- Where a block collection could begin, the text is read as the key of a block mapping first. -/
theorem readInside_compact (depth : Nat) :
    ∃ kind, readInside (Node.read (depth + 1)) floor context true c
      = .ok (⟨none, kind, v, true⟩, c.past text ('\n' :: (List.replicate k ' ' ++ content))) := by
  obtain ⟨tag, kind, -, hread⟩ := h.reads
  set rest := '\n' :: (List.replicate k ' ' ++ content) with hrest
  have hopens : opensContent c.rest = true := by
    rw [hc]
    exact opensContent_append h.opens rest
  have hkey : Node.read (depth + 1) ⟨floor + 1, .flowOut, false, true⟩ c
      = .ok (⟨tag, kind, v, true⟩, c.past text rest) := by
    rw [read_flow rfl hopens]
    exact hread _ _ _ _ _ (by decide) hready (.line hk hcontent) hc
  exact ⟨kind, readInside_single hopens hready.tab context hkey rfl rfl
    (by simp [hrest, startsWith, isBreak])⟩

end Inline

end ParamForm.Yaml
