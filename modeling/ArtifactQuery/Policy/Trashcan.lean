import ArtifactQuery.Policy.Conjunction

/-!
# The trashcan

Deleted content stays in a repository of its own, which queries do not show unless they ask for a
repository.

* `TrashcanSettings`: whether that is so, the repository, and the property that marks deleted
  content.
* `Query.withoutTrash`: the query restricted to what is not in the trashcan.
-/

namespace ArtifactQuery

/-- The repository of deleted content. -/
structure TrashcanSettings where
  enabled : Bool := true
  repoKey : String := "auto-trashcan"
  /-- The property that notes when content was deleted. -/
  timeKey : String := "trash.time"
  deriving DecidableEq, Repr

/-- Whether a criterion asks for a repository. -/
def Criterion.asksForRepo (c : Criterion) : Bool :=
  c.kind = .simple ∧ c.field? = some .itemRepo ∧ c.comparator = .equals

/-- The criterion that an item is in another repository. -/
def Criterion.repoIsNot (repo : String) : Criterion :=
  .simple [.items] .itemRepo (.plain .nodes) .notEquals (.text repo)

/-- The criterion that a property has another key. -/
def Criterion.keyIsNot (key : String) : Criterion :=
  .simple [.properties] .propertyKey (.plain .nodeProps) .notEquals (.text key)

/-- Hides the trashcan from queries with a condition: its items from a query on items that asks for
no repository, its marks from a query on properties. -/
def Query.withoutTrash (q : Query) (t : TrashcanSettings) : Query :=
  if ¬ t.enabled ∨ q.elements = [] then q
  else match q.domain with
    | .items =>
      if q.criteria.any Criterion.asksForRepo then q
      else q.andAlso [.criterion (.repoIsNot t.repoKey)]
    | .properties => q.andAlso [.criterion (.keyIsNot t.timeKey)]
    | _ => q

end ArtifactQuery
