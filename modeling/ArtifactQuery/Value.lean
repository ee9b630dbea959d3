import ArtifactQuery.Schema.Field

/-!
# Values

What a query compares with: a literal as it is written, and the value it becomes when it is read as
the type of a field.

* `Literal`, `Value`: the two forms, each with its text.
* `ItemType`: file, folder, or either of them.
* `Comparator`, `Connective`: comparisons and combinations, each with its signature in queries.
-/

namespace ArtifactQuery

/-- A value as it is written in a query. -/
inductive Literal
  | text (s : String)
  | number (n : Int)
  | truth (b : Bool)
  | null
  deriving DecidableEq, Repr

/-- The text of a literal. -/
def Literal.shown : Literal → String
  | text s => s
  | number n => toString n
  | truth b => if b then "true" else "false"
  | null => "null"

/-- What an item is. -/
inductive ItemType
  | folder
  | file
  | any
  deriving DecidableEq, Repr

namespace ItemType

/-- The item type called `s`. -/
def named? : String → Option ItemType
  | "folder" => some folder
  | "file" => some file
  | "any" => some any
  | _ => none

/-- The item type's name. -/
def name : ItemType → String
  | folder => "folder"
  | file => "file"
  | any => "any"

/-- The number stored for an item type; `any` has none. -/
def code? : ItemType → Option Int
  | folder => some 0
  | file => some 1
  | any => none

/-- The item type stored as `n`. -/
def ofCode? (n : Int) : Option ItemType :=
  if n = 0 then some folder else if n = 1 then some file else none

end ItemType

/-- A value read as the type of the field it is compared with. Dates are milliseconds since 1970. -/
inductive Value
  | text (s : String)
  | long (n : Int)
  | date (millis : Int)
  | itemType (t : ItemType)
  | null
  deriving DecidableEq, Repr

namespace Value

/-- The text of a value. -/
def shown : Value → String
  | text s => s
  | long n => toString n
  | date n => toString n
  | itemType t => t.name
  | null => "null"

/-- The content of a text. -/
def text? : Value → Option String
  | text s => some s
  | _ => none

end Value

/-- How a field is compared with a value. -/
inductive Comparator
  | equals
  | notEquals
  | greater
  | greaterEquals
  | less
  | lessEquals
  | matching
  | notMatching
  /-- Younger than a span of time; a date turns it into `greater`. -/
  | last
  /-- Older than a span of time; a date turns it into `less`. -/
  | before
  deriving DecidableEq, Repr

namespace Comparator

/-- All comparators. -/
def all : List Comparator :=
  [equals, notEquals, greater, greaterEquals, less, lessEquals, matching, notMatching, last, before]

/-- The comparator's spelling in queries. -/
def signature : Comparator → String
  | equals => "$eq"
  | notEquals => "$ne"
  | greater => "$gt"
  | greaterEquals => "$gte"
  | less => "$lt"
  | lessEquals => "$lte"
  | matching => "$match"
  | notMatching => "$nmatch"
  | last => "$last"
  | before => "$before"

/-- The comparator spelled `s`. -/
def signed? (s : String) : Option Comparator := all.find? (·.signature = s)

/-- Whether the comparator denies another one. -/
def isNegative : Comparator → Bool
  | notEquals | notMatching => true
  | _ => false

/-- The comparator that a negative one denies; any other is itself. -/
def positive : Comparator → Comparator
  | notEquals => equals
  | notMatching => matching
  | c => c

/-- Whether the comparator is equality or its denial. -/
def isEquality : Comparator → Bool
  | equals | notEquals => true
  | _ => false

/-- Whether the comparator takes a wildcard pattern. -/
def takesPattern : Comparator → Bool
  | matching | notMatching => true
  | _ => false

end Comparator

/-- How the criteria of a clause are combined. -/
inductive Connective
  | and
  | or
  /-- All of them hold, and on the same property. -/
  | sameProperty
  deriving DecidableEq, Repr

namespace Connective

/-- The connective's spelling in queries. -/
def signature : Connective → String
  | and => "$and"
  | or => "$or"
  | sameProperty => "$msp"

/-- The connective spelled `s`. -/
def signed? (s : String) : Option Connective :=
  [and, or, sameProperty].find? (·.signature = s)

end Connective

end ArtifactQuery
