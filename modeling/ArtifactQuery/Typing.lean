import ArtifactQuery.Time.Instant
import ArtifactQuery.Time.Span

/-!
# Typing values

A literal is read as the type of the field it is compared with.

* `Value.ofLiteral`: the value of a literal for a field type; `null` is a value of every type.
* `Comparator.resolve`: comparator and value of a test, where a span of time becomes an instant.
* `Comparator.check`: the comparator suits the field type and the value.
-/

namespace ArtifactQuery

/-- The literal as a number: itself, or the number its text spells. -/
def Value.numberOf : Literal → Except QueryError Value
  | .number n => .ok (.long n)
  | .text s => match Signed64.ofText? (trim s) with
    | some n => .ok (.long n)
    | none => .error (.invalidValue (.notANumber s))
  | l => .error (.invalidValue (.notANumber l.shown))

/-- The literal as an instant: a count of milliseconds, or a date. -/
def Value.dateOf : Literal → Except QueryError Value
  | .number n => .ok (.date n)
  | .text s => (Instant.read s).map .date
  | l => .error (.invalidValue (.notADate l.shown))

/-- The literal as the name of an item type. -/
def Value.itemTypeOf : Literal → Except QueryError Value
  | .text s => match ItemType.named? s with
    | some t => .ok (.itemType t)
    | none => .error (.invalidValue (.unknownItemType s))
  | l => .error (.invalidValue (.notAnItemType l.shown))

/-- The value of a literal for a field type. -/
def Value.ofLiteral : FieldType → Literal → Except QueryError Value
  | _, .null => .ok .null
  | .text, l => .ok (.text l.shown)
  | .long, l | .integer, l => Value.numberOf l
  | .date, l => Value.dateOf l
  | .itemType, l => Value.itemTypeOf l

namespace Comparator

/-- The comparator that `last` and `before` become on dates. -/
def ofSpan? : Comparator → Option Comparator
  | last => some greater
  | before => some less
  | _ => none

/-- Comparator and value of a test of the field at `path`, at the instant `now`. -/
def resolve (now : Int) (path : String) (t : FieldType) (c : Comparator) (l : Literal) :
    Except QueryError (Comparator × Value) :=
  match c.ofSpan? with
  | none => (Value.ofLiteral t l).map fun v => (c, v)
  | some absolute =>
    if t ≠ .date then .error (.unsupportedComparator (.spanOnNonDate path))
    else (Span.before now l.shown).map fun n => (absolute, .date n)

/-- Refuses a comparator that suits the value or the field type not. -/
def check (path : String) (t : FieldType) (c : Comparator) (v : Value) : Except QueryError Unit :=
  if v = .null ∧ ¬ c.isEquality then .error (.unsupportedComparator (.nullOn c path))
  else if c.takesPattern ∧ t ≠ .text then .error (.unsupportedComparator (.onNonText c path))
  else if t = .itemType ∧ ¬ c.isEquality then .error (.unsupportedComparator (.onItemType c))
  else .ok ()

end Comparator

end ArtifactQuery
