import ArtifactQuery.Policy.ItemTypes
import ArtifactQuery.Policy.ReadScope
import ArtifactQuery.Policy.Trashcan
import ArtifactQuery.Policy.ValueHeads
import ArtifactQuery.Policy.VirtualRepos

/-!
# Policies

What the host adds to every query before it becomes a statement.

* `Policy`: one such addition; `Policy.all` are all of them in the order in which they run.
* `Surroundings`: what the policies look at.
* `Query.decorate`: a query under some policies.
-/

namespace ArtifactQuery

/-- What policies look at. -/
structure Surroundings where
  repos : RepoResolver := .none
  readScope : ReadScope := .unrestricted
  trashcan : TrashcanSettings := {}

/-- An addition to every query. -/
inductive Policy
  | itemTypes
  | trashcan
  | virtualRepos
  | readScope
  deriving DecidableEq, Repr

namespace Policy

/-- The policies in the order in which they run. -/
def all : List Policy := [itemTypes, trashcan, virtualRepos, readScope]

/-- The policy's name. -/
def name : Policy → String
  | itemTypes => "default-item-type"
  | trashcan => "trashcan"
  | virtualRepos => "virtual-repo"
  | readScope => "permissions"

/-- A query under a policy. -/
def apply (s : Surroundings) (q : Query) : Policy → Query
  | itemTypes => q.filesByDefault
  | trashcan => q.withoutTrash s.trashcan
  | virtualRepos => q.overMembers s.repos
  | readScope => q.within s.readScope

end Policy

/-- A query under policies, one after the other. -/
def Query.decorate (s : Surroundings) (ps : List Policy) (q : Query) : Query :=
  ps.foldl (Policy.apply s) q

end ArtifactQuery
