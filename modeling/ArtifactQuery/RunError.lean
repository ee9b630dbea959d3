import ArtifactQuery.QueryError
import ArtifactQuery.Row.RepoPath

/-!
# Errors of a run

Why running a query fails once it is a statement, or why it is never run.

* `RunError`: a refused query, a failed execution, bad settings, or output that is not taken.
* `RunError.message?`: the error in words, where the wording is this library's.
* `MutationFailure`: why an item is not deleted.
-/

namespace ArtifactQuery

/-- Why an execution fails. -/
inductive ExecutionCause
  /-- The host says so. -/
  | reported (text : String)
  | cursorClosed
  | tooFewColumns (expected got : Nat)
  | itemNotFound (p : RepoPath)
  | readOnly (key : String) (p : RepoPath)
  deriving DecidableEq, Repr

/-- The cause in words. -/
def ExecutionCause.message : ExecutionCause → String
  | reported s => s
  | cursorClosed => "cursor is closed"
  | tooFewColumns e g => s!"expected {e} columns, got {g}"
  | itemNotFound p => s!"{p.shown} not found"
  | readOnly k p => s!"cannot edit property {k} on {p.shown}: repository is read only"

/-- Why settings are refused. -/
inductive SettingsCause
  /-- They are not written as settings are, or a setting has a value of another type. -/
  | unreadable
  | dialect (cause : QueryError)
  | eagerLimitText (s : String)
  | flagText (name s : String)
  | eagerLimit (n : Int)
  | noTrashcanRepo
  deriving DecidableEq, Repr

/-- The cause in words. -/
def SettingsCause.message : SettingsCause → String
  | unreadable => "unreadable settings"
  | dialect e => e.message
  | eagerLimitText s => s!"AQL_EAGER_LIMIT must be a number: {s}"
  | flagText n s => s!"{n} must be true or false: {s}"
  | eagerLimit n => s!"eager_limit must be positive, got {n}"
  | noTrashcanRepo => "trashcan.repo_key must not be empty"

/-- Why a run fails. -/
inductive RunError
  | query (e : QueryError)
  | execution (cause : ExecutionCause)
  | settings (cause : SettingsCause)
  /-- The output is not taken. -/
  | output
  deriving DecidableEq, Repr

/-- The error in words. -/
def RunError.message : RunError → String
  | query e => e.message
  | execution c => "Query execution error: " ++ c.message
  | settings c => "Configuration error: " ++ c.message
  | output => "output error"

/-- Why an item is not deleted. -/
inductive MutationFailure
  /-- The host says so. -/
  | reported (text : String)
  | itemNotFound (p : RepoPath)
  | readOnly (p : RepoPath)
  deriving DecidableEq, Repr

/-- The failure in words. -/
def MutationFailure.message : MutationFailure → String
  | reported s => s
  | itemNotFound p => s!"{p.shown} not found"
  | readOnly p => s!"cannot delete {p.shown}: repository is read only"

end ArtifactQuery
