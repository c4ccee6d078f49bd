import ParamForm.Calendar
import ParamForm.Number.Literal
import ParamForm.Yaml.Cursor

/-!
# Timestamps

The scalars that are points of time: a date `2001-12-14`, or a date with a time of day, of which
the zone and all digits of the second's fraction but three may be left out.
-/

namespace ParamForm.Yaml

/-- The digits that a text begins with, `most` of them at most, if there are at least `least`. -/
def digits? (least most : Nat) (cs : List Char) : Option (Nat × List Char) :=
  let run := (cs.take most).takeWhile Char.isDigit
  if least ≤ run.length then some (digitsValue 10 0 run, cs.drop run.length) else none

/-- What comes after a character, if the text begins with it. -/
def after? (c : Char) : List Char → Option (List Char)
  | [] => none
  | d :: rest => if d = c then some rest else none

/-- The milliseconds of a fraction of a second, of which three digits count. -/
def fractionMs (digits : List Char) : Nat :=
  digitsValue 10 0 ((digits ++ ['0', '0', '0']).take 3)

/-- The offset of a zone in milliseconds: none, `Z`, or a sign, hours and perhaps minutes. -/
def zone? (cs : List Char) : Option Int :=
  match cs with
  | [] => some 0
  | _ =>
    match cs.dropWhile isWhite with
    | ['Z'] => some 0
    | s :: rest =>
      if s = '+' ∨ s = '-' then do
        let (hours, rest) ← digits? 1 2 rest
        let minutes ← match rest with
          | [] => some 0
          | ':' :: rest => (digits? 2 2 rest).bind fun (m, rest) =>
            if rest.isEmpty then some m else none
          | _ => none
        let offset : Int := ((hours * 60 + minutes) * 60000 : Nat)
        some (if s = '-' then -offset else offset)
      else none
    | [] => none

/-- What stands between a date and a time of day: one `T` or `t`, or blanks. -/
def dateGap? : List Char → Option (List Char)
  | [] => none
  | c :: rest =>
    if c = 'T' ∨ c = 't' then some rest
    else if isWhite c then some (rest.dropWhile isWhite)
    else none

/-- A point of time; years below 100 are of the twentieth century. -/
def pointOfTime (year month day hour minute second ms : Nat) : Int :=
  let year := if year < 100 then 1900 + year else year
  Calendar.ofParts year ((month : Int) - 1) day hour minute second ms

/-- A date: four digits, two and two. -/
def date? (cs : List Char) : Option Int := do
  let (year, cs) ← digits? 4 4 cs
  let cs ← after? '-' cs
  let (month, cs) ← digits? 2 2 cs
  let cs ← after? '-' cs
  let (day, cs) ← digits? 2 2 cs
  if cs.isEmpty then some (pointOfTime year month day 0 0 0 0) else none

/-- A point of time with a time of day, in milliseconds. Without a time zone it is taken as
universal time. -/
def dateTime? (cs : List Char) : Option Int := do
  let (year, cs) ← digits? 4 4 cs
  let cs ← after? '-' cs
  let (month, cs) ← digits? 1 2 cs
  let cs ← after? '-' cs
  let (day, cs) ← digits? 1 2 cs
  let cs ← dateGap? cs
  let (hour, cs) ← digits? 1 2 cs
  let cs ← after? ':' cs
  let (minute, cs) ← digits? 2 2 cs
  let cs ← after? ':' cs
  let (second, cs) ← digits? 2 2 cs
  let (fraction, cs) := match cs with
    | '.' :: rest => rest.span Char.isDigit
    | _ => ([], cs)
  let offset ← zone? cs
  some (pointOfTime year month day hour minute second (fractionMs fraction) - offset)

/-- A timestamp in milliseconds from the start of 1970. -/
def timestamp? (cs : List Char) : Option Int :=
  date? cs <|> dateTime? cs

end ParamForm.Yaml
