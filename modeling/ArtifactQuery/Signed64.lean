/-!
# Signed 64-bit integers

Numbers in queries, parameters and settings are whole numbers of 64 bits with a sign. They are held
as `Int`; wherever one arises its range is checked.

* `Signed64.Fits n`: `n` lies in the range.
* `Signed64.ofChars?`, `Signed64.ofText?`: decimal text, digits after at most one sign, in range.
* `Signed64.addCapped`: a sum that stops at a bound.
-/

namespace ArtifactQuery.Signed64

/-- The least representable number. -/
def least : Int := -9223372036854775808

/-- The greatest representable number; as a limit it stands for "no limit". -/
def greatest : Int := 9223372036854775807

/-- `n` is representable. -/
def Fits (n : Int) : Prop := least ≤ n ∧ n ≤ greatest

instance (n : Int) : Decidable (Fits n) := inferInstanceAs (Decidable (_ ∧ _))

/-- `n` itself when it is representable. -/
def check? (n : Int) : Option Int := if Fits n then some n else none

/-- The number that a run of decimal digits spells, the first digit weighing most. -/
def ofDigits (cs : List Char) : Nat := cs.foldl (fun n c => 10 * n + (c.toNat - 48)) 0

/-- The number spelled by `cs`, if `cs` is a non-empty run of digits. -/
def magnitude? (cs : List Char) : Option Nat :=
  if cs ≠ [] ∧ cs.all Char.isDigit then some (ofDigits cs) else none

/-- Reads digits after at most one sign; a number out of range is refused. -/
def ofChars? : List Char → Option Int
  | '-' :: cs => (magnitude? cs).bind fun n => check? (-n)
  | '+' :: cs => (magnitude? cs).bind fun n => check? n
  | cs => (magnitude? cs).bind fun n => check? n

/-- `ofChars?` on a text. -/
def ofText? (s : String) : Option Int := ofChars? s.toList

/-- `a + b`, or `bound` when the sum passes it or is not representable. -/
def addCapped (a b bound : Int) : Int :=
  if Fits (a + b) ∧ a + b ≤ bound then a + b else bound

end ArtifactQuery.Signed64
