import ArtifactQuery.Signed64

/-!
# Readers

A reader takes something from the front of a run of characters, and leaves the rest.

* `Reader.sign`, `Reader.number`: a given character, and some digits.
* `Reader.separated`: one or more items with a sign between them.
-/

namespace ArtifactQuery

/-- Takes something from the front of characters, if it is there. -/
abbrev Reader (α : Type) := List Char → Option (α × List Char)

namespace Reader

/-- Takes the character `c`. -/
def sign (c : Char) : Reader Unit
  | [] => none
  | d :: cs => if d = c then some ((), cs) else none

/-- Takes `least` to `most` digits. -/
def number (least most : Nat) : Reader Nat := fun cs =>
  let digits := (cs.take most).takeWhile Char.isDigit
  if least ≤ digits.length then some (Signed64.ofDigits digits, cs.drop digits.length) else none

/-- Takes one or more items with `sep` between them. -/
def separated {α : Type} (item : Reader α) (sep : Char) (cs : List Char) :
    Option (List α × List Char) :=
  match item cs with
  | none => none
  | some (a, []) => some ([a], [])
  | some (a, c :: rest) =>
    if c ≠ sep then some ([a], c :: rest)
    else if _h : rest.length < cs.length then
      (separated item sep rest).map fun r => (a :: r.1, r.2)
    else none
termination_by cs.length
decreasing_by exact _h

end Reader

end ArtifactQuery
