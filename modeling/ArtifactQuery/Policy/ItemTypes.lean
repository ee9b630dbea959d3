import ArtifactQuery.Policy.Conjunction

/-!
# Files by default

* `Query.filesByDefault`: a query on items that does not test the type of its items finds files
  only. A test for any type keeps folders as well.
-/

namespace ArtifactQuery

/-- Whether a criterion tests the type of the items searched. -/
def Criterion.testsItemType (c : Criterion) : Bool := c.field? = some .itemType ∧ c.path = [.items]

/-- The criterion that an item is a file. -/
def Criterion.isFile : Criterion :=
  .simple [.items] .itemType (.plain .nodes) .equals (.itemType .file)

/-- Restricts a query on items to files unless it tests their type. -/
def Query.filesByDefault (q : Query) : Query :=
  if q.domain = .items ∧ ¬ q.criteria.any Criterion.testsItemType then
    q.andAlso [.criterion .isFile]
  else q

end ArtifactQuery
