import Mathlib.Data.List.TakeWhile
import ParamForm.Proofs.Yaml.Reading

/-!
# Texts of one document

A text without a directive or a mark before it, of which the one node leads to the end, is read as
the value of the node (`load_of_reads`).
-/

namespace ParamForm.Yaml

/-- The beginning of a document that has neither directives nor a mark before it. -/
def opensDocument (cs : List Char) : Bool :=
  !cs.isEmpty && startsToken cs && !startsWith (· = '%') cs && cs.take 3 ≠ ['-', '-', '-']

/-- What reads a document and steps to what is after it. -/
def documentEnd (r : Node × Cursor) : Except Fault (Graph × Cursor) :=
  let d := r.2.token
  let graph : Graph := ⟨r.1.value, d.names.collections⟩
  if d.atMark then
    if startsWith (· = '.') d.rest then
      .ok (graph, (d.past ['.', '.', '.'] (d.rest.drop 3)).token)
    else .ok (graph, d)
  else if isFinal d then .ok (graph, d)
  else d.fail .documentEndMissing

theorem documentEnd_of_leads {v : Linked} {c : Cursor} {r : Node × Cursor}
    (h : Leads v 0 [] c r) :
    documentEnd r = .ok (⟨v, r.2.token.names.collections⟩, r.2.token) := by
  have hrest := h.next.rest
  have hmark : r.2.token.atMark = false := by simp [Cursor.atMark, hrest, startsMark]
  simp [documentEnd, hmark, isFinal, hrest, h.value]

theorem normalized_of_break {cs : List Char} (hlast : cs.getLast? = some '\n')
    (hmark : startsWith (· = '\uFEFF') cs = false) : normalized cs = cs := by
  have hend : (if (cs.getLast?.map isBreak).getD true then cs else cs ++ ['\n']) = cs := by
    simp [hlast, isBreak]
  unfold normalized
  simp only [hend]
  split
  · simp [startsWith] at hmark
  · rfl

theorem normalized_of_not_break {cs : List Char} {c : Char} (hlast : cs.getLast? = some c)
    (hc : isBreak c = false) (hmark : startsWith (· = '\uFEFF') cs = false) :
    normalized cs = cs ++ ['\n'] := by
  have hend : (if (cs.getLast?.map isBreak).getD true then cs else cs ++ ['\n'])
      = cs ++ ['\n'] := by
    simp [hlast, hc]
  unfold normalized
  simp only [hend]
  split
  · rename_i rest hrest
    cases cs with
    | nil => simp at hlast
    | cons d ds =>
      rw [List.cons_append, List.cons.injEq] at hrest
      simp [startsWith, hrest.1] at hmark
  · rfl

/-- The root is read with one level of nesting less for what is in it. -/
theorem read_root {text : List Char} (h : StartsNode text) :
    Node.read maxDepth ⟨0, .blockOut, false, true⟩ { rest := text }
      = readInside (Node.read 99) 0 .blockOut true { rest := text } := by
  rw [maxDepth, Node.read, readWith_space text (by simp) h.token h.tag h.anchor]
  simp [Context.allowsBlocks, Cursor.past_nil]

section Document

variable {text : List Char} (h : opensDocument text = true)
include h

theorem document_eq :
    document { rest := text }
      = Node.read maxDepth ⟨0, .blockOut, false, true⟩ { rest := text } >>= documentEnd := by
  simp only [opensDocument, Bool.and_eq_true, Bool.not_eq_true', decide_eq_true_eq] at h
  obtain ⟨⟨⟨-, htoken⟩, hdirective⟩, hhyphens⟩ := h
  set c : Cursor := { rest := text } with hc
  have hctoken : c.token = c := Cursor.token_of_startsToken htoken
  have hdirectives : directives {} c (c.rest.length + 1) = .ok ({}, c) := by
    rw [directives, hctoken]
    simp [hc, hdirective]
  have hstart : documentStart {} c = .ok c := by
    unfold documentStart
    split
    · rename_i rest hindent hrest
      have : text = '-' :: '-' :: '-' :: rest := hrest
      exact absurd (by rw [this]; rfl) hhyphens
    · rfl
  rw [document]
  simp only [bind, Except.bind]
  rw [show ({ c with names := {}, handles := [] } : Cursor) = c from rfl, hdirectives]
  simp only [hstart]
  rcases Node.read maxDepth ⟨0, .blockOut, false, true⟩ c with f | ⟨node, d⟩
  · rfl
  · rfl

theorem documents_eq {cs : List Char} (hnormal : normalized cs = text) (hnull : '\x00' ∉ text) :
    documents cs = documentsFrom { rest := text } (text.length + 1) := by
  have htake : text.takeWhile (· ≠ '\x00') = text := by
    rw [List.takeWhile_eq_self_iff]
    intro c hc
    simpa using fun h : c = '\x00' => hnull (h ▸ hc)
  have hspaces : text.takeWhile (· = ' ') = [] := by
    simp only [opensDocument, Bool.and_eq_true] at h
    have hspace := startsWith_space_of_startsToken h.1.1.2
    cases text with
    | nil => rfl
    | cons c cs => exact List.takeWhile_cons_of_neg (by simpa [startsWith] using hspace)
  simp only [documents, hnormal, htake, Nat.lt_irrefl, if_false, hspaces]
  congr 1

/-- A text of which the node is read up to the end is read as the value of the node. -/
theorem load_of_reads {cs : List Char} {v : Value} {fits : Prop} (hnormal : normalized cs = text)
    (hnull : '\x00' ∉ text) (hlong : 1 < Text.width text)
    (hread : Reads fits (Leads (.ofValue v) 0 [] { rest := text })
      (Node.read maxDepth ⟨0, .blockOut, false, true⟩ { rest := text })) :
    Reads fits (· = .tree v) (load (String.ofList cs)) := by
  have hfinal : isFinal { rest := text } = false := by simpa [isFinal] using hlong
  have hlength : 1 ≤ text.length := by
    cases text with
    | nil => simp [opensDocument] at h
    | cons c cs => simp
  obtain ⟨n, hn⟩ : ∃ n, text.length = n + 1 := ⟨text.length - 1, by omega⟩
  unfold load
  rw [String.toList_ofList, documents_eq h hnormal hnull, documentsFrom, document_eq h, hn]
  simp only [hfinal, Bool.false_eq_true, if_false]
  rw [bind_assoc, bind_assoc]
  refine (hread.bind (p := True) fun r hr => ?_).congr (iff_of_eq (and_true _))
  have hend : documentsFrom r.2.token (n + 1) = .ok [] := by
    rw [documentsFrom]
    simp [isFinal, hr.next.rest, pure, Except.pure]
  rw [documentEnd_of_leads hr]
  simp only [bind, Except.bind, hend]
  exact Reads.ok (loaded_ofValue v _)

end Document

end ParamForm.Yaml
