import ArtifactQuery.Policy.ReadScope
import ArtifactQuery.Result.Cursor
import ArtifactQuery.Sql.Condition

/-!
# The host

The host runs statements, grants permissions, and changes its repositories. Its answers may depend
on what it was asked before, so every call is noted.

* `HostCall`: what the host is asked.
* `Host`: its answers, given the calls before.
* `Hosted`: a computation that calls the host.
-/

namespace ArtifactQuery

/-- What the host is asked. -/
inductive HostCall
  | canRead (p : RepoPath)
  | canDelete (p : RepoPath)
  | canAnnotate (p : RepoPath)
  | undeploy (p : RepoPath)
  | edit (p : RepoPath) (key : String) (value : Option String)
  | execute (sql : String) (params : List Sql.Param)
  deriving DecidableEq, Repr

/-- The calls made so far, the first one first. -/
abbrev Calls := List HostCall

/-- A computation that calls the host. -/
abbrev Hosted (α : Type) := StateM Calls α

namespace Hosted

/-- A value on its own makes no calls. -/
theorem pure_apply {α : Type} (a : α) (calls : Calls) :
    (pure a : Hosted α) calls = (a, calls) := rfl

/-- What follows knows the calls made before. -/
theorem bind_apply {α β : Type} (m : Hosted α) (f : α → Hosted β) (calls : Calls) :
    (m >>= f) calls = f (m calls).1 (m calls).2 := rfl

end Hosted

/-- What the host answers, given the calls before. -/
structure Host where
  canRead : Calls → RepoPath → Bool := fun _ _ => true
  canDelete : Calls → RepoPath → Bool := fun _ _ => true
  canAnnotate : Calls → RepoPath → Bool := fun _ _ => true
  /-- Why an item is not deleted; none if it is. -/
  undeploy : Calls → RepoPath → Option MutationFailure := fun _ p => some (.readOnly p)
  /-- Why a property is not set; none if it is. -/
  edit : Calls → RepoPath → String → Option String → Option RunError :=
    fun _ p k _ => some (.execution (.readOnly k p))
  execute : Calls → String → List Sql.Param → Except RunError Cursor
  readScope : ReadScope := .unrestricted

namespace Host

/-- Notes a call and hands out what the host answers to it. -/
def ask {α : Type} (call : HostCall) (answer : Calls → α) : Hosted α :=
  fun calls => (answer calls, calls ++ [call])

/-- Whether the item may be read. -/
def asksRead (h : Host) (p : RepoPath) : Hosted Bool := ask (.canRead p) (h.canRead · p)

/-- Whether the item may be deleted. -/
def asksDelete (h : Host) (p : RepoPath) : Hosted Bool := ask (.canDelete p) (h.canDelete · p)

/-- Whether properties of the item may be set. -/
def asksAnnotate (h : Host) (p : RepoPath) : Hosted Bool :=
  ask (.canAnnotate p) (h.canAnnotate · p)

/-- Deletes the item. -/
def deletes (h : Host) (p : RepoPath) : Hosted (Option MutationFailure) :=
  ask (.undeploy p) (h.undeploy · p)

/-- Sets a property of the item. -/
def edits (h : Host) (p : RepoPath) (key : String) (value : Option String) :
    Hosted (Option RunError) :=
  ask (.edit p key value) (h.edit · p key value)

/-- Runs a statement. -/
def executes (h : Host) (sql : String) (params : List Sql.Param) :
    Hosted (Except RunError Cursor) :=
  ask (.execute sql params) (h.execute · sql params)

end Host

end ArtifactQuery
