import DocumentStore.Timestamp

/-!
# Dates and times in TOML

A moment is a date, a time of day, or a date and a time with a letter or a
blank between them; only the last may name its distance from UTC.  The calendar
has the date, and a minute may have a leap second.  Every reading function
returns the rest of the text, and none when the text does not have the form.
-/

namespace DocumentStore
namespace Toml
namespace Moment

/-- A date of four, two and two digits. -/
def date? (cs : List Char) : Option (List Char) := do
  let (year, cs) ← Text.digits? 4 cs
  let (month, cs) ← Text.digits? 2 (← Text.mark? '-' cs)
  let (day, cs) ← Text.digits? 2 (← Text.mark? '-' cs)
  if Timestamp.Date.isCalendar ⟨year, month, day⟩ then some cs else none

/-- Skip the fraction of a second. -/
def skipFraction : List Char → List Char
  | '.' :: rest =>
      let width := (rest.takeWhile Char.isDigit).length
      if width = 0 then '.' :: rest else rest.drop width
  | cs => cs

/-- An hour and a minute. -/
def hourMinute? (cs : List Char) : Option (List Char) := do
  let (hour, cs) ← Text.digits? 2 cs
  let (minute, cs) ← Text.digits? 2 (← Text.mark? ':' cs)
  if hour < 24 ∧ minute < 60 then some cs else none

/-- A time of day to the second or to a fraction of it. -/
def time? (cs : List Char) : Option (List Char) := do
  let cs ← hourMinute? cs
  let (second, cs) ← Text.digits? 2 (← Text.mark? ':' cs)
  if second ≤ 60 then some (skipFraction cs) else none

/-- Skip the distance from UTC. -/
def skipOffset (cs : List Char) : List Char :=
  match cs with
  | c :: rest =>
      if c = 'Z' ∨ c = 'z' then rest
      else if c = '+' ∨ c = '-' then (hourMinute? rest).getD cs
      else cs
  | [] => []

/-- The text after a date: a time that belongs to it, if one follows. -/
def skipTime (cs : List Char) : List Char :=
  match cs with
  | c :: rest =>
      if c = 'T' ∨ c = 't' ∨ c = ' ' then ((time? rest).map skipOffset).getD cs else cs
  | [] => []

/-- A date, a time of day or both. -/
def moment? (cs : List Char) : Option (List Char) :=
  match date? cs with
  | some rest => some (skipTime rest)
  | none => time? cs

end Moment
end Toml
end DocumentStore
