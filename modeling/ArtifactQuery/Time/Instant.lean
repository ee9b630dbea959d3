import ArtifactQuery.QueryError
import ArtifactQuery.Signed64
import ArtifactQuery.Text.Blank
import ArtifactQuery.Text.Reader
import ArtifactQuery.Time.Calendar

/-!
# Instants

Instants are counted in milliseconds from the start of 1970, UTC, and written as ISO 8601 texts.

* `Instant.read`: the instant that a text names, in one of the accepted forms.
* `Instant.written?`: the text of an instant, `2020-01-31T10:20:30.000Z`, in the years `firstYear`
  to `lastYear`.

A text is first read as RFC 3339, with a zone and every part at its full width. Otherwise it is a
date and a time joined by `T` or by blanks, or a date alone, in UTC; there, numbers may be short and
blanks may stand in front of them, a year may have a sign, and only then more than four digits. The
second 60 is the first of the next minute. Digits below the millisecond are dropped.
-/

namespace ArtifactQuery.Instant

open Reader

/-- The first year with dates. -/
def firstYear : Int := -262143

/-- The last year with dates. -/
def lastYear : Int := 262142

/-- Milliseconds of a day. -/
def day : Int := 86400000

/-- Takes blanks, then one or two digits. -/
def short : Reader Nat := fun cs => number 1 2 (trimFront cs)

/-- Takes blanks, then a year: at most four digits, or a sign and any number of digits. -/
def year : Reader Int := fun cs =>
  match trimFront cs with
  | '-' :: rest => (number 1 rest.length rest).map fun r => (-(r.1 : Int), r.2)
  | '+' :: rest => (number 1 rest.length rest).map fun r => (r.1, r.2)
  | rest => (number 1 4 rest).map fun r => (r.1, r.2)

/-- Takes a point and digits, if there is a point: the milliseconds that they spell. -/
def fraction : Reader Nat
  | '.' :: cs =>
    let digits := cs.takeWhile Char.isDigit
    if digits.isEmpty then none
    else some (Signed64.ofDigits ((digits ++ ['0', '0']).take 3), cs.dropWhile Char.isDigit)
  | cs => some (0, cs)

/-- The count of days of a date that exists. -/
def daysOf? (y : Int) (m d : Nat) : Option Int :=
  if firstYear ≤ y ∧ y ≤ lastYear ∧ (CivilDate.mk y m d).Valid then
    some (CivilDate.mk y m d).toDays
  else none

/-- The milliseconds from midnight to a time of the day. -/
def millisOf? (hour minute second millis : Nat) : Option Int :=
  if hour < 24 ∧ minute < 60 ∧ second ≤ 60 then
    some (((hour * 60 + minute) * 60 + second) * 1000 + millis : Nat)
  else none

/-- Takes a zone, the minutes east of UTC: `Z`, or a sign, hours below 24 and minutes below 60. -/
def zone : Reader Int
  | [] => none
  | c :: cs =>
    if c = 'Z' ∨ c = 'z' then some (0, cs)
    else if c = '+' ∨ c = '-' ∨ c = '\u2212' then do
      let (hours, cs) ← number 2 2 cs
      let (_, cs) ← sign ':' cs
      let (minutes, cs) ← number 2 2 cs
      if hours < 24 ∧ minutes < 60 then
        let offset : Int := (hours * 60 + minutes : Nat)
        some (if c = '+' then offset else -offset, cs)
      else none
    else none

/-- Reads a whole text as RFC 3339. -/
def ofRfc3339? (cs : List Char) : Option Int := do
  let (y, cs) ← number 4 4 cs
  let (_, cs) ← sign '-' cs
  let (m, cs) ← number 2 2 cs
  let (_, cs) ← sign '-' cs
  let (d, cs) ← number 2 2 cs
  let (_, cs) ← (sign 'T' cs).orElse fun _ => (sign 't' cs).orElse fun _ => sign ' ' cs
  let (hour, cs) ← number 2 2 cs
  let (_, cs) ← sign ':' cs
  let (minute, cs) ← number 2 2 cs
  let (_, cs) ← sign ':' cs
  let (second, cs) ← number 2 2 cs
  let (millis, cs) ← fraction cs
  let (offset, cs) ← zone cs
  let days ← daysOf? y m d
  let time ← millisOf? hour minute second millis
  if cs.isEmpty then some (day * days + time - 60000 * offset) else none

/-- Takes a date. -/
def date : Reader Int := fun cs => do
  let (y, cs) ← year cs
  let (_, cs) ← sign '-' cs
  let (m, cs) ← short cs
  let (_, cs) ← sign '-' cs
  let (d, cs) ← short cs
  let days ← daysOf? y m d
  some (days, cs)

/-- Takes a time of the day, with a fraction of a second if `fractional`. -/
def time (fractional : Bool) : Reader Int := fun cs => do
  let (hour, cs) ← short cs
  let (_, cs) ← sign ':' cs
  let (minute, cs) ← short cs
  let (_, cs) ← sign ':' cs
  let (second, cs) ← short cs
  let (millis, cs) ← if fractional then fraction cs else some (0, cs)
  let t ← millisOf? hour minute second millis
  some (t, cs)

/-- Reads a whole text as a date and a time in UTC, joined by `T`; the second may have a fraction.
-/
def ofDateAndTime? (cs : List Char) : Option Int := do
  let (days, cs) ← date cs
  let (_, cs) ← sign 'T' cs
  let (t, cs) ← time true cs
  if cs.isEmpty then some (day * days + t) else none

/-- Reads a whole text as a date and a time in UTC, joined by blanks. -/
def ofDateBlankTime? (cs : List Char) : Option Int := do
  let (days, cs) ← date cs
  let (t, cs) ← time false cs
  if cs.isEmpty then some (day * days + t) else none

/-- Reads a whole text as a date, whose day begins in UTC. -/
def ofDate? (cs : List Char) : Option Int := do
  let (days, cs) ← date cs
  if cs.isEmpty then some (day * days) else none

/-- The instant that a text names in any of the forms. -/
def ofChars? (cs : List Char) : Option Int :=
  (ofRfc3339? cs).orElse fun _ => (ofDateAndTime? cs).orElse fun _ =>
    (ofDateBlankTime? cs).orElse fun _ => ofDate? cs

/-- The instant that a text names, blanks at its ends set aside. -/
def read (s : String) : Except QueryError Int :=
  match ofChars? (trimChars s.toList) with
  | some n => .ok n
  | none => .error (.invalidValue (.notAnIsoDate (trim s)))

/-- The digits of `n` at a fixed width. -/
def digits : Nat → Nat → List Char
  | 0, _ => []
  | width + 1, n => digits width (n / 10) ++ [Char.ofNat (48 + n % 10)]

/-- A year as four digits; a year before 0 or after 9999 has a sign and may have more. -/
def yearText (y : Int) : List Char :=
  if 0 ≤ y ∧ y ≤ 9999 then digits 4 y.toNat
  else (if y < 0 then '-' else '+') ::
    (if y.natAbs < 10000 then digits 4 y.natAbs else (toString y.natAbs).toList)

/-- An instant as a text. -/
def textOf (millis : Int) : List Char :=
  let d := CivilDate.ofDays (millis / day)
  let t := (millis % day).toNat
  yearText d.year ++ '-' :: digits 2 d.month ++ '-' :: digits 2 d.day ++ 'T' ::
    digits 2 (t / 3600000) ++ ':' :: digits 2 (t / 60000 % 60) ++ ':' :: digits 2 (t / 1000 % 60) ++
    '.' :: digits 3 (t % 1000) ++ ['Z']

/-- Whether the calendar has a date for the instant. -/
def HasDate (millis : Int) : Prop :=
  day * (CivilDate.mk firstYear 1 1).toDays ≤ millis ∧
    millis < day * (CivilDate.mk (lastYear + 1) 1 1).toDays

instance (millis : Int) : Decidable (HasDate millis) := inferInstanceAs (Decidable (_ ∧ _))

/-- An instant as a text, if the calendar has a date for it. -/
def written? (millis : Int) : Option String :=
  if HasDate millis then some (String.ofList (textOf millis)) else none

end ArtifactQuery.Instant
