import DocumentStore.Text.Digits

/-!
# Timestamps

An instant in microseconds since the start of 1970 in UTC, and its RFC 3339
text.  The text has a fixed number of fraction digits when it is used as a
field, so that text order is time order, and as few as lose nothing when it
stands in a written document.
-/

namespace DocumentStore

/-- Microseconds since 1970-01-01T00:00:00Z. -/
structure Timestamp where
  micros : Int
deriving DecidableEq, Repr, Inhabited

namespace Timestamp

/-- The start of 1970. -/
def epoch : Timestamp := ⟨0⟩

/-- The next instant. -/
def next (t : Timestamp) : Timestamp := ⟨t.micros + 1⟩

/-- A day of the proleptic Gregorian calendar. -/
structure Date where
  year : Int
  month : Nat
  day : Nat
deriving DecidableEq, Repr

/--
The date of a day counted from 1970-01-01.  Years are taken to start in
March, so that the leap day is the last of its year, and are counted within
eras of 400 years, which all have 146097 days.
-/
def Date.ofDays (days : Int) : Date :=
  let shifted := days + 719468
  let era := shifted.fdiv 146097
  let ofEra := (shifted - era * 146097).toNat
  let yearOfEra := (ofEra - ofEra / 1460 + ofEra / 36524 - ofEra / 146096) / 365
  let ofYear := ofEra - (365 * yearOfEra + yearOfEra / 4 - yearOfEra / 100)
  let month := (5 * ofYear + 2) / 153
  let day := ofYear - (153 * month + 2) / 5 + 1
  let month := if month < 10 then month + 3 else month - 9
  let year := era * 400 + yearOfEra
  ⟨if month ≤ 2 then year + 1 else year, month, day⟩

/-- The day of a date, counted from 1970-01-01. -/
def Date.toDays (d : Date) : Int :=
  let year := if d.month ≤ 2 then d.year - 1 else d.year
  let era := year.fdiv 400
  let yearOfEra := (year - era * 400).toNat
  let month := if 2 < d.month then d.month - 3 else d.month + 9
  let ofYear := (153 * month + 2) / 5 + d.day - 1
  let ofEra := yearOfEra * 365 + yearOfEra / 4 - yearOfEra / 100 + ofYear
  era * 146097 + ofEra - 719468

/-- Whether the calendar has a date. -/
def Date.isCalendar (d : Date) : Bool :=
  Date.ofDays d.toDays = d

/-- A number in decimal, with zeros in front up to a width. -/
def padded (width n : Nat) : List Char :=
  let digits := Nat.toDigits 10 n
  List.replicate (width - digits.length) '0' ++ digits

/-- A year: four digits, with a sign when it is not between 0 and 9999. -/
def renderYear (year : Int) : List Char :=
  if year < 0 then '-' :: padded 4 year.natAbs
  else if 9999 < year then '+' :: padded 4 year.natAbs
  else padded 4 year.natAbs

/-- Date and time of day to the second, without the fraction. -/
def renderSeconds (t : Timestamp) : List Char :=
  let seconds := t.micros.fdiv 1000000
  let date := Date.ofDays (seconds.fdiv 86400)
  let ofDay := (seconds.fmod 86400).toNat
  renderYear date.year ++ '-' :: (padded 2 date.month ++ '-' :: (padded 2 date.day ++
    'T' :: (padded 2 (ofDay / 3600) ++ ':' :: (padded 2 (ofDay / 60 % 60) ++
      ':' :: padded 2 (ofDay % 60)))))

/-- The microseconds within the second. -/
def fraction (t : Timestamp) : Nat :=
  (t.micros.fmod 1000000).toNat

/-- The text with exactly six fraction digits. -/
def toText (t : Timestamp) : String :=
  String.ofList (t.renderSeconds ++ '.' :: (padded 6 t.fraction ++ ['Z']))

/-- The text with 0, 3 or 6 fraction digits, the fewest that lose nothing. -/
def toShortText (t : Timestamp) : String :=
  let fraction :=
    if t.fraction = 0 then []
    else if t.fraction % 1000 = 0 then '.' :: padded 3 (t.fraction / 1000)
    else '.' :: padded 6 t.fraction
  String.ofList (t.renderSeconds ++ fraction ++ ['Z'])

/-- The year that starts a text. -/
def year? (cs : List Char) : Option (Int × List Char) :=
  let signed (negative : Bool) (cs : List Char) : Option (Int × List Char) :=
    let width := (cs.takeWhile Char.isDigit).length
    if width < 4 then none
    else
      (Text.digits? width cs).map fun r =>
        (if negative then -(r.1 : Int) else r.1, r.2)
  match cs with
  | '-' :: rest => signed true rest
  | '+' :: rest => signed false rest
  | _ => (Text.digits? 4 cs).map fun r => (r.1, r.2)

/-- The fraction of a second, in microseconds, and the closing mark. -/
def tail? : List Char → Option Nat
  | ['Z'] => some 0
  | '.' :: rest =>
      let width := (rest.takeWhile Char.isDigit).length
      if width = 0 ∨ 6 < width then none
      else
        match Text.digits? width rest with
        | some (n, ['Z']) => some (n * Nat.pow 10 (6 - width))
        | _ => none
  | _ => none

/-- The instant of a text in UTC with at most six fraction digits. -/
def parse? (text : String) : Option Timestamp := do
  let (year, cs) ← year? text.toList
  let (month, cs) ← Text.digits? 2 (← Text.mark? '-' cs)
  let (day, cs) ← Text.digits? 2 (← Text.mark? '-' cs)
  let (hour, cs) ← Text.digits? 2 (← Text.mark? 'T' cs)
  let (minute, cs) ← Text.digits? 2 (← Text.mark? ':' cs)
  let (second, cs) ← Text.digits? 2 (← Text.mark? ':' cs)
  let micros ← tail? cs
  let date : Date := ⟨year, month, day⟩
  if date.isCalendar ∧ hour < 24 ∧ minute < 60 ∧ second < 60 then
    let seconds := date.toDays * 86400 + (hour * 3600 + minute * 60 + second : Nat)
    some ⟨seconds * 1000000 + micros⟩
  else
    none

end Timestamp
end DocumentStore
