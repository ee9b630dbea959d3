import ArtifactQuery.Value

/-!
# Criteria

A criterion is one comparison. It is reached from the main domain along a path of domains, and it
reads one occurrence of a table.

* `Criterion.simple`: a field compared with a value.
* `Criterion.property`: a property with a given key, its value compared.
* `Criterion.never`: a comparison that never holds.
* `Criterion.shown`: the criterion as a text.
-/

namespace ArtifactQuery

/-- One side of a comparison. -/
inductive Operand
  | field (f : Field)
  | value (v : Value)
  deriving DecidableEq, Repr

namespace Operand

/-- The field on this side. -/
def field? : Operand → Option Field
  | field f => some f
  | value _ => none

/-- The value on this side. -/
def value? : Operand → Option Value
  | field _ => none
  | value v => some v

/-- A field as `segment.name`, a value as its text. -/
def shown : Operand → String
  | field f => f.domain.segment ++ "." ++ f.name
  | value v => v.shown

end Operand

/-- What a criterion compares, and how much of it. -/
inductive CriterionKind
  /-- A column. -/
  | simple
  /-- The key or the value column of a property table. -/
  | propertyColumn
  /-- The value of the property with a given key. -/
  | property
  /-- As `propertyColumn`, by the first characters of the value. -/
  | propertyColumnHead
  /-- As `property`, by the first characters of the value. -/
  | propertyHead
  deriving DecidableEq, Repr

namespace CriterionKind

/-- Whether the criterion names a property by its key. -/
def namesKey : CriterionKind → Bool
  | property | propertyHead => true
  | _ => false

end CriterionKind

/-- One comparison. -/
structure Criterion where
  kind : CriterionKind
  /-- The domains from the main one to the one compared. -/
  path : List Domain
  /-- The field compared, or the key of the property. -/
  left : Operand
  leftTable : Occurrence
  comparator : Comparator
  right : Operand
  rightTable : Occurrence
  deriving DecidableEq, Repr

namespace Criterion

/-- The field `f` of the occurrence `o` compared with `v`. -/
def simple (path : List Domain) (f : Field) (o : Occurrence) (c : Comparator) (v : Value) :
    Criterion where
  kind := if o.table.holdsProperties then .propertyColumn else .simple
  path := path
  left := .field f
  leftTable := o
  comparator := c
  right := .value v
  rightTable := o

/-- The value of the property `key` compared with `v`. -/
def property (path : List Domain) (key : String) (o : Occurrence) (c : Comparator) (v : Value) :
    Criterion where
  kind := .property
  path := path
  left := .value (.text key)
  leftTable := o
  comparator := c
  right := .value v
  rightTable := o

/-- One compared with zero: this never holds. -/
def never (path : List Domain) (o : Occurrence) : Criterion where
  kind := .simple
  path := path
  left := .value (.long 1)
  leftTable := o
  comparator := .equals
  right := .value (.long 0)
  rightTable := o

/-- The same criterion with another comparator and value. -/
def withTest (c : Criterion) (cmp : Comparator) (v : Value) : Criterion :=
  { c with comparator := cmp, right := .value v }

/-- The field compared. -/
def field? (c : Criterion) : Option Field := c.left.field?

/-- The value compared with. -/
def value? (c : Criterion) : Option Value := c.right.value?

/-- The domain at which the path starts. -/
def mainDomain? (c : Criterion) : Option Domain := c.path.head?

/-- Left side, signature and right side. -/
def shown (c : Criterion) : String :=
  c.left.shown ++ " " ++ c.comparator.signature ++ " " ++ c.right.shown

end Criterion

end ArtifactQuery
