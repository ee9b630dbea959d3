import ArtifactQuery.Json
import ArtifactQuery.Time.Instant
import ArtifactQuery.Value

/-!
# Cells

What the database returns in one column of a row, and the value it is for a field.

* `Cell`: a returned value without a type.
* `Value.ofCell`: the cell read as the type of a field. A cell that does not suit the type is kept
  as it was returned.
* `Value.json`: a value as JSON. Dates that the calendar has are texts.
-/

namespace ArtifactQuery

/-- A returned value. -/
inductive Cell
  | null
  | integer (n : Int)
  | text (s : String)
  deriving DecidableEq, Repr

namespace Value

/-- A returned text as a number, if it spells one. -/
def longOfText (s : String) : Value :=
  match Signed64.ofText? (trim s) with
  | some n => long n
  | none => text s

/-- A returned text as a date, if it names one. -/
def dateOfText (s : String) : Value :=
  match Instant.read s with
  | .ok n => date n
  | .error _ => text s

/-- A returned number as an item type, if it stands for one. -/
def itemTypeOfCode (n : Int) : Value := ((ItemType.ofCode? n).map itemType).getD (long n)

/-- A returned text as an item type, if it names one. -/
def itemTypeOfText (s : String) : Value := ((ItemType.named? s).map itemType).getD (text s)

/-- The value of a cell for a field type. -/
def ofCell : FieldType → Cell → Value
  | _, .null => null
  | .text, .text s => text s
  | .text, .integer n => text (toString n)
  | .long, .integer n | .integer, .integer n => long n
  | .long, .text s | .integer, .text s => longOfText s
  | .date, .integer n => date n
  | .date, .text s => dateOfText s
  | .itemType, .integer n => itemTypeOfCode n
  | .itemType, .text s => itemTypeOfText s

/-- The number that a value is, for a date its milliseconds. -/
def number? : Value → Option Int
  | long n | date n => some n
  | _ => none

/-- The milliseconds of a date that the calendar has. -/
def instant? : Value → Option Int
  | date n => if Instant.HasDate n then some n else none
  | _ => none

/-- A value as JSON. -/
def json : Value → Json
  | null => .null
  | text s => .text s
  | long n => .int n
  | date n => match Instant.written? n with
    | some s => .text s
    | none => .int n
  | itemType t => .text t.name

end Value

end ArtifactQuery
