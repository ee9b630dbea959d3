import ArtifactQuery.Policy.Conjunction
import ArtifactQuery.Text.Wildcard

/-!
# Virtual repositories

A virtual repository holds nothing itself and stands for its members. A criterion on repositories
has to cover the members as well.

* `RepoResolver`: the virtual repositories and their members.
* `RepoResolver.expand`: the elements that take the place of a criterion on repositories.
* `Query.overMembers`: a query whose criteria on repositories cover the members.
-/

namespace ArtifactQuery

/-- The virtual repositories, by key, and the members of each. -/
structure RepoResolver where
  keys : List String
  members : String → List String

namespace RepoResolver

/-- No virtual repositories. -/
def none : RepoResolver := ⟨[], fun _ => []⟩

/-- The virtual repositories of a table; of several rows with one key the first counts. -/
def ofTable (rows : List (String × List String)) : RepoResolver where
  keys := rows.map Prod.fst
  members k := (rows.lookup k).getD []

/-- The members of the virtual repositories whose keys satisfy `p`, each once, in order. -/
def membersWhere (r : RepoResolver) (p : String → Bool) : List String :=
  ((r.keys.filter p).flatMap r.members).eraseDups

/-- Whether a key compares with `key` as a comparator says. -/
def selects : Comparator → String → String → Bool
  | .equals, key, k | .notEquals, key, k => k = key
  | .matching, key, k | .notMatching, key, k => Wildcard.fitsText key k
  | .greater, key, k => key < k
  | .greaterEquals, key, k => ¬ k < key
  | .less, key, k => k < key
  | .lessEquals, key, k => ¬ key < k
  | .last, _, _ | .before, _, _ => false

/-- A criterion and, joined to it by `op`, tests of the same field for each repository. -/
def widened (c : Criterion) (op : Element) (cmp : Comparator) (repos : List String) :
    List Element :=
  let tests := repos.map fun r => c.withTest cmp (.text r)
  .openParen :: Element.between op (c :: tests) ++ [.closeParen]

/-- The elements in place of a criterion that compares a repository with `key`, where `repos` are
the members of the virtual repositories it selects. An equality is replaced by equalities with the
members, any other comparison is widened by them; denials are joined by `and`. -/
def cover (c : Criterion) (repos : List String) : List Element :=
  if repos = [] then [.criterion c]
  else match c.comparator with
    | .equals => Element.joined .or (repos.map fun r => c.withTest .equals (.text r))
    | .notEquals => Element.joined .and (repos.map fun r => c.withTest .notEquals (.text r))
    | .notMatching => widened c .and .notEquals repos
    | _ => widened c .or .equals repos

/-- The elements in place of a criterion. Only a text compared with the repository of an item
counts. -/
def expand (r : RepoResolver) (c : Criterion) : List Element :=
  match c.kind, c.field?, c.value? with
  | .simple, some .itemRepo, some (.text key) => cover c (r.membersWhere (selects c.comparator key))
  | _, _, _ => [.criterion c]

end RepoResolver

/-- The query whose criteria on repositories cover the members of virtual ones. -/
def Query.overMembers (q : Query) (r : RepoResolver) : Query :=
  { q with elements := q.elements.flatMap fun
      | .criterion c => r.expand c
      | e => [e] }

end ArtifactQuery
