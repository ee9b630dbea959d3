import ArtifactQuery.Query

/-!
# Conjunctions

What policies add to the condition of a query.

* `Query.andAlso`: a further condition that must hold too.
* `Element.joined`: criteria joined by one connective, in parentheses unless there is exactly one.
* `Query.unusedId`: a number that no criterion's occurrence has, as long as the last of the
  `idCount` numbers is not in use.
-/

namespace ArtifactQuery

/-- Requires `extra` as well: the condition so far is put in parentheses. -/
def Query.andAlso (q : Query) (extra : List Element) : Query :=
  if extra = [] then q
  else if q.elements = [] then { q with elements := extra }
  else { q with elements := .openParen :: q.elements ++ [.closeParen, .and] ++ extra }

/-- Criteria with `op` between them. -/
def Element.between (op : Element) (cs : List Criterion) : List Element :=
  (cs.map Element.criterion).intersperse op

/-- Criteria joined by `op`, in parentheses unless there is exactly one. -/
def Element.joined (op : Element) (cs : List Criterion) : List Element :=
  if cs.length = 1 then Element.between op cs
  else .openParen :: Element.between op cs ++ [.closeParen]

/-- The number after `n`; the first one follows the last. -/
def followingId (n : Nat) : Nat := (n + 1) % idCount

/-- A number for a joined occurrence: the greatest of those that follow the numbers in use, and at
least the first number of joined occurrences. -/
def Query.unusedId (q : Query) : Nat :=
  q.criteria.foldl (fun n c => max n (followingId c.leftTable.id)) firstDynamicId

end ArtifactQuery
