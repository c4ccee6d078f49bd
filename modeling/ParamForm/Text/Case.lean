import ParamForm.Text.CaseTable

/-!
# Letter case

`firstUpper` puts the first character of a text into upper case, and `lower` a whole text into
lower case, by the full case maps of Unicode. A character outside the basic plane is left as the
first of a text, because its first unit alone has no case.
-/

namespace ParamForm.Text

/-- Looks a character up in a table of runs. -/
def mapRuns (runs : List CaseRun) (n : Nat) : Nat :=
  match runs.find? (·.holds n) with
  | some r => ((n : Int) + r.offset).toNat
  | none => n

/-- The form of a character by a table of expansions and one of runs. -/
def mapCase (expansions : List (Nat × List Nat)) (runs : List CaseRun) (c : Char) : List Char :=
  match expansions.lookup c.toNat with
  | some ns => ns.map Char.ofNat
  | none => [Char.ofNat (mapRuns runs c.toNat)]

/-- A character in upper case. One beyond the basic plane is two units, of which the first has no
case. -/
def upperChar (c : Char) : List Char :=
  if c.toNat < 0x10000 then mapCase upperExpansions upperRuns c else [c]

/-- A text whose first character is in upper case. -/
def firstUpper (s : String) : String :=
  match s.toList with
  | [] => s
  | c :: rest => String.ofList (upperChar c ++ rest)

/-- Whether the number of a character lies in one of some ranges. -/
def inRanges (ranges : List (Nat × Nat)) (c : Char) : Bool :=
  ranges.any fun r => r.1 ≤ c.toNat && c.toNat ≤ r.2

/-- Whether a character is passed over where the end of a word is looked for. -/
def isCaseIgnorable (c : Char) : Bool :=
  inRanges caseIgnorableRanges c

/-- Whether a character is in upper, lower or title case. -/
def isCased (c : Char) : Bool :=
  inRanges casedRanges c

/-- Whether the first character that is not case-ignorable is cased. -/
def meetsCased (cs : List Char) : Bool :=
  (cs.find? (! isCaseIgnorable ·)).any isCased

/-- The lower-case form of the characters after `before`, which is held in reverse. A capital sigma
at the end of a word takes its final form. -/
def lowerFrom (before : List Char) : List Char → List Char
  | [] => []
  | c :: rest =>
    let form :=
      if c = 'Σ' then if meetsCased before && !meetsCased rest then ['ς'] else ['σ']
      else mapCase lowerExpansions lowerRuns c
    form ++ lowerFrom (c :: before) rest

/-- A text in lower case. -/
def lower (s : String) : String :=
  String.ofList (lowerFrom [] s.toList)

end ParamForm.Text
