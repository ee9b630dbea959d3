import ArtifactQuery.QueryError
import ArtifactQuery.Signed64
import ArtifactQuery.Text.Blank

/-!
# Spans of time

Spans such as `3d`, `2 weeks` or `12hours`, counted in milliseconds. A month has 30 days and a year
365.

* `Span.unit?`: the milliseconds of a unit.
* `Span.read`: the span that a text names; spans beyond the range of milliseconds are refused.
* `Span.before`: the instant a span before another.
-/

namespace ArtifactQuery.Span

/-- The milliseconds of a unit of time. -/
def unit? : String → Option Nat
  | "ms" | "millis" => some 1
  | "s" | "seconds" => some 1000
  | "mi" | "minutes" => some 60000
  | "h" | "hours" => some 3600000
  | "d" | "days" => some 86400000
  | "w" | "weeks" => some 604800000
  | "mo" | "months" => some 2592000000
  | "y" | "years" => some 31536000000
  | _ => none

/-- The span that a text names: digits and a unit, with blanks around and between them. -/
def read (s : String) : Except QueryError Int :=
  let cs := trimChars s.toList
  let shown := String.ofList cs
  let unit := String.ofList (trimChars (cs.dropWhile Char.isDigit))
  match Signed64.ofChars? (cs.takeWhile Char.isDigit) with
  | none => .error (.invalidValue (.notASpan shown))
  | some amount => match unit? unit with
    | none => .error (.invalidValue (.unknownUnit unit shown))
    | some size =>
      if amount * size ≤ Signed64.greatest then .ok (amount * size)
      else .error (.invalidValue (.spanOutOfRange shown))

/-- The instant the span `s` before `now`. -/
def before (now : Int) (s : String) : Except QueryError Int := do
  let span ← read s
  match Signed64.check? (now - span) with
  | some n => .ok n
  | none => .error (.invalidValue (.spanOutOfRange s))

end ArtifactQuery.Span
