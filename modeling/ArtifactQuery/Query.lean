import ArtifactQuery.Criterion
import ArtifactQuery.Signed64

/-!
# Queries

A query after its names are resolved: its criteria as a flat list with parentheses, the fields it
returns, their order, the window of rows, and what is done with each row.

* `Element`: a criterion, a connective or a parenthesis.
* `ResultField`: a field and the path of domains that reaches it.
* `ActionSpec`: what is done with the rows.
* `Query`: all of these.
* `Query.describe`: the criteria as a text.
-/

namespace ArtifactQuery

/-- A piece of the flat condition. -/
inductive Element
  | criterion (c : Criterion)
  | and
  | or
  | openParen
  | closeParen
  deriving DecidableEq, Repr

namespace Element

/-- Whether the element joins two operands. -/
def isConnective : Element → Bool
  | and | or => true
  | _ => false

/-- Whether an operand ends with this element. -/
def endsOperand : Element → Bool
  | criterion _ | closeParen => true
  | _ => false

/-- The criterion of the element. -/
def criterion? : Element → Option Criterion
  | criterion c => some c
  | _ => none

/-- The text of an element. -/
def shown : Element → String
  | criterion c => c.shown
  | and => "$and"
  | or => "$or"
  | openParen => "("
  | closeParen => ")"

end Element

/-- A returned field and the domains passed on the way to it. -/
structure ResultField where
  field : Field
  path : List Domain
  deriving DecidableEq, Repr

namespace ResultField

/-- A field of the main domain itself. -/
def main (f : Field) (d : Domain) : ResultField := ⟨f, [d]⟩

/-- Whether the field belongs to the main domain. -/
def isMain (f : ResultField) : Bool := f.path.length = 1

end ResultField

/-- The direction of an order. -/
inductive Direction
  | asc
  | desc
  deriving DecidableEq, Repr

/-- The direction as an SQL keyword. -/
def Direction.keyword : Direction → String
  | .asc => "asc"
  | .desc => "desc"

/-- The order of the rows. -/
structure Sorting where
  direction : Direction
  fields : List ResultField
  deriving DecidableEq, Repr

/-- What a query does with its rows. -/
inductive ActionKind
  | find
  | delete
  | updateProperty
  deriving DecidableEq, Repr

namespace ActionKind

/-- The action's name in queries. -/
def name : ActionKind → String
  | find => "find"
  | delete => "delete"
  | updateProperty => "update"

/-- The action's name in listings. -/
def identifier : ActionKind → String
  | find => "find"
  | delete => "delete"
  | updateProperty => "update_property"

/-- The action called `s`. -/
def named? (s : String) : Option ActionKind := [find, delete, updateProperty].find? (·.name = s)

/-- Items can be deleted, properties updated, and everything found. -/
def supports : ActionKind → Domain → Bool
  | find, _ => true
  | delete, d => d = .items
  | updateProperty, d => d = .properties

end ActionKind

/-- An action with its parameters. -/
structure ActionSpec where
  kind : ActionKind
  /-- Whether nothing is changed; left open, the settings decide. -/
  dryRun : Option Bool := none
  keys : List String := []
  newValue : Option String := none
  deriving DecidableEq, Repr

/-- A query whose names are resolved. -/
structure Query where
  domain : Domain
  resultFields : List ResultField := []
  elements : List Element := []
  sort : Option Sorting := none
  limit : Int := Signed64.greatest
  offset : Int := 0
  action : ActionSpec := ⟨.find, none, [], none⟩
  deriving DecidableEq, Repr

namespace Query

/-- Adds a result field behind the others unless it is there already. -/
def addResultField (q : Query) (f : ResultField) : Query :=
  if f ∈ q.resultFields then q else { q with resultFields := q.resultFields ++ [f] }

/-- Adds result fields one after the other. -/
def addResultFields (q : Query) (fs : List ResultField) : Query := fs.foldl addResultField q

/-- The criteria in their order. -/
def criteria (q : Query) : List Criterion := q.elements.filterMap Element.criterion?

/-- The elements as a text, one blank between two. -/
def describe (q : Query) : String := " ".intercalate (q.elements.map Element.shown)

end Query

end ArtifactQuery
