import ArtifactQuery.Query

/-!
# Heads of property values

PostgreSQL indexes the first characters of the values of item properties. Equality with a value is
therefore asked of these heads, and of whole values only where the head does not decide.

* `Criterion.headKind?`: the kind that compares heads, for the criteria concerned.
* `Query.byHeads`: a query whose criteria of this kind compare heads.
-/

namespace ArtifactQuery

/-- The length of the indexed head of a value. -/
def headLength : Nat := 255

/-- The kind that compares the head of a property value, if there is one. -/
def Criterion.headKind? (c : Criterion) : Option CriterionKind :=
  match c.kind with
  | .propertyColumn => if c.field? = some .propertyValue then some .propertyColumnHead else none
  | .property => some .propertyHead
  | _ => none

/-- The criterion on the whole value of the property row that `c` reads. -/
def Criterion.onWholeValue (c : Criterion) : Criterion :=
  if c.kind = .property then { c with kind := .propertyColumn, left := .field .propertyValue }
  else c

/-- The elements in place of a criterion: equality and its denial with a text look at the head of an
item property, and equality with a text that fills the head also at the whole value. -/
def Criterion.byHead (c : Criterion) : List Element :=
  match c.headKind?, c.value? with
  | some k, some (.text s) =>
    if ¬ (c.comparator.isEquality ∧ c.leftTable.table = .nodeProps) then [.criterion c]
    else if c.comparator = .equals ∧ headLength ≤ s.length then
      [.openParen, .criterion { c with kind := k }, .and, .criterion c.onWholeValue, .closeParen]
    else [.criterion { c with kind := k }]
  | _, _ => [.criterion c]

/-- The query whose criteria on values of item properties compare heads. -/
def Query.byHeads (q : Query) : Query :=
  { q with elements := q.elements.flatMap fun
      | .criterion c => c.byHead
      | e => [e] }

end ArtifactQuery
