import ArtifactQuery.Time.Calendar
import ArtifactQuery.Toml.Basic

/-!
# TOML scalars

The values that are written without quotes or brackets: constants, whole numbers, fractions and
points in time.

* `Toml.wholeNumber?`: the number that characters spell, decimal or with another base.
* `Toml.isFraction`, `Toml.isMoment`: whether characters spell a fraction or a point in time.
* `Toml.scalar`: takes any of these values or a text in quotes.
-/

namespace ArtifactQuery.Toml

open Reader

/-- Digits without the underscores between them. Every underscore must have a digit on both sides.
-/
def joinedDigits? (isDigit : Char → Bool) : List Char → Option (List Char)
  | [] => none
  | [c] => if isDigit c then some [c] else none
  | c :: '_' :: cs => if isDigit c then (joinedDigits? isDigit cs).map (c :: ·) else none
  | c :: cs => if isDigit c then (joinedDigits? isDigit cs).map (c :: ·) else none

/-- Decimal digits without a needless zero in front. -/
def decimalDigits? (cs : List Char) : Option (List Char) :=
  match joinedDigits? Char.isDigit cs with
  | some ('0' :: _ :: _) => none
  | ds => ds

/-- The number that digits spell in a base. -/
def ofBase? (base : Nat) (cs : List Char) : Option Int := do
  let isDigit (c : Char) : Bool := (hexValue? c).any (· < base)
  let ds ← joinedDigits? isDigit cs
  let values ← ds.mapM hexValue?
  let n : Nat := values.foldl (fun n d => base * n + d) 0
  Signed64.check? n

/-- The characters behind a sign, if there is one. -/
def unsigned : List Char → List Char
  | '+' :: cs | '-' :: cs => cs
  | cs => cs

/-- The number that characters spell: decimal with at most one sign, or without one behind `0x`,
`0o` or `0b`. -/
def wholeNumber? : List Char → Option Int
  | '0' :: 'x' :: cs => ofBase? 16 cs
  | '0' :: 'o' :: cs => ofBase? 8 cs
  | '0' :: 'b' :: cs => ofBase? 2 cs
  | cs => do
    let n := Signed64.ofDigits (← decimalDigits? (unsigned cs))
    Signed64.check? (if cs.head? = some '-' then -n else n)

/-- Whether characters spell the exponent of a fraction. -/
def isExponent : List Char → Bool
  | [] => true
  | c :: cs => (c = 'e' || c = 'E') && (joinedDigits? Char.isDigit (unsigned cs)).isSome

/-- Whether characters spell what follows the whole part of a fraction. -/
def isFractionTail : List Char → Bool
  | '.' :: cs =>
    let isExponentSign (c : Char) : Bool := c = 'e' || c = 'E'
    (joinedDigits? Char.isDigit (cs.takeWhile (!isExponentSign ·))).isSome &&
      isExponent (cs.dropWhile (!isExponentSign ·))
  | [] => false
  | cs => isExponent cs

/-- Whether characters spell a fraction. -/
def isFraction (cs : List Char) : Bool :=
  let body := unsigned cs
  let isWhole (c : Char) : Bool := c.isDigit || c = '_'
  body = "inf".toList || body = "nan".toList ||
    (decimalDigits? (body.takeWhile isWhole)).isSome && isFractionTail (body.dropWhile isWhole)

/-- Takes a date that exists. -/
def date : Reader Unit := fun cs => do
  let (y, cs) ← number 4 4 cs
  let (_, cs) ← sign '-' cs
  let (m, cs) ← number 2 2 cs
  let (_, cs) ← sign '-' cs
  let (d, cs) ← number 2 2 cs
  if (CivilDate.mk y m d).Valid then some ((), cs) else none

/-- Takes a time of the day; the second may have a fraction. -/
def time : Reader Unit := fun cs => do
  let (hour, cs) ← number 2 2 cs
  let (_, cs) ← sign ':' cs
  let (minute, cs) ← number 2 2 cs
  let (_, cs) ← sign ':' cs
  let (second, cs) ← number 2 2 cs
  if ¬ (hour < 24 ∧ minute < 60 ∧ second ≤ 60) then none
  else match cs with
    | '.' :: cs => (number 1 cs.length cs).map fun r => ((), r.2)
    | cs => some ((), cs)

/-- Takes a zone, if there is one. -/
def zone : Reader Unit
  | [] => some ((), [])
  | c :: cs =>
    if c = 'Z' ∨ c = 'z' then some ((), cs)
    else if c = '+' ∨ c = '-' then do
      let (hours, cs) ← number 2 2 cs
      let (_, cs) ← sign ':' cs
      let (minutes, cs) ← number 2 2 cs
      if hours < 24 ∧ minutes < 60 then some ((), cs) else none
    else some ((), c :: cs)

/-- Takes a time of the day with a zone. -/
def zonedTime : Reader Unit := fun cs => do
  let (_, cs) ← time cs
  zone cs

/-- Whether a reader takes all the characters. -/
def takesAll (r : Reader Unit) (cs : List Char) : Bool := (r cs).any (·.2.isEmpty)

/-- Takes a date and, behind `T`, a time. -/
def dateAndTime : Reader Unit := fun cs => do
  let (_, cs) ← date cs
  match cs with
  | 'T' :: cs | 't' :: cs => zonedTime cs
  | cs => some ((), cs)

/-- Whether characters spell a point in time: a date, a time of the day, or both. -/
def isMoment (cs : List Char) : Bool := takesAll dateAndTime cs || takesAll time cs

/-- The value that characters without quotes spell. -/
def plain? (cs : List Char) : Option Toml :=
  if cs = "true".toList then some (truth true)
  else if cs = "false".toList then some (truth false)
  else match wholeNumber? cs with
    | some n => some (int n)
    | none =>
      if isFraction cs then some fraction else if isMoment cs then some moment else none

/-- Whether a character may occur in a value without quotes. -/
def isPlainValueChar (c : Char) : Bool :=
  c.isAlphanum || c = '_' || c = '+' || c = '-' || c = '.' || c = ':'

/-- Takes a value without quotes. A date may also be joined to a time by a blank. -/
def plain : Reader Toml := fun cs =>
  let front := cs.takeWhile isPlainValueChar
  let rest := cs.dropWhile isPlainValueChar
  let later := rest.drop 1
  if takesAll date front && rest.head? = some ' ' &&
      takesAll zonedTime (later.takeWhile isPlainValueChar) then
    some (moment, later.dropWhile isPlainValueChar)
  else (plain? front).map (·, rest)

/-- Takes a value without brackets. -/
def scalar : Reader Toml := fun cs =>
  match quoted cs with
  | some (s, rest) => some (text s, rest)
  | none => plain cs

end ArtifactQuery.Toml
