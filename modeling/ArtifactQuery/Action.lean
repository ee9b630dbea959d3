import ArtifactQuery.Host
import ArtifactQuery.Row.Basic

/-!
# Actions

What is done with each row of a result: nothing, deleting the item, or setting properties. In a dry
run only permissions are asked for.

* `Action.ofSpec`: the action of a query; a flag that the query leaves open is given by the
  settings.
* `Action.apply`: an action on a row, which yields the row unchanged or a failure.
* `ActionFailure.message`: the kind of a failure and its cause in words.
-/

namespace ArtifactQuery

/-- Why an action fails on a row. -/
inductive ActionFailure
  | unsupported (k : ActionKind) (d : Domain)
  | noItem
  | noKeys
  | noItemPath
  | mayNotDelete (p : RepoPath)
  | notDeleted (p : RepoPath) (cause : MutationFailure)
  | mayNotAnnotate (p : RepoPath)
  | notSet (key : String) (value : Option String) (p : RepoPath) (cause : RunError)
  deriving DecidableEq, Repr

/-- The kinds of failures. -/
inductive FailureKind
  | actionFailed
  | unsupportedForDomain
  | unexpectedContent
  deriving DecidableEq, Repr

namespace ActionFailure

/-- The kind of a failure. -/
def kind : ActionFailure → FailureKind
  | unsupported _ _ => .unsupportedForDomain
  | noItem | noKeys | noItemPath => .unexpectedContent
  | mayNotDelete _ | notDeleted _ _ | mayNotAnnotate _ | notSet _ _ _ _ => .actionFailed

/-- The cause in words. -/
def cause : ActionFailure → String
  | unsupported k d => s!"{k.name} is not supported for {d.plural}"
  | noItem => "delete requires item repo, path and name"
  | noKeys => "update requires at least one property key"
  | noItemPath => "property row carries no item path"
  | mayNotDelete p => s!"no delete permission on {p.shown}"
  | notDeleted p c => s!"failed to delete {p.shown}: {c.message}"
  | mayNotAnnotate p => s!"no annotate permission on {p.shown}"
  | notSet k v p c =>
    let value := v.getD ""
    s!"failed to set {k} to '{value}' on {p.shown}: {c.message}"

/-- The heading of a kind. -/
def heading : FailureKind → String
  | .actionFailed => "Action failed"
  | .unsupportedForDomain => "Unsupported for domain"
  | .unexpectedContent => "Unexpected content"

/-- The kind of a failure and its cause in words. -/
def message (f : ActionFailure) : String := heading f.kind ++ ": " ++ f.cause

end ActionFailure

/-- What is done with each row. -/
structure Action where
  kind : ActionKind
  dryRun : Bool
  keys : List String := []
  newValue : Option String := none
  deriving DecidableEq, Repr

namespace Action

/-- The action that a query asks for. -/
def ofSpec (dryRunDefault : Bool) (s : ActionSpec) : Action where
  kind := s.kind
  dryRun := s.dryRun.getD dryRunDefault
  keys := s.keys
  newValue := s.newValue

/-- The items whose properties a row stands for: its own item, or those related to it. -/
def targets (r : Row) : List RepoPath :=
  match r.repoPath? with
  | some p => [p]
  | none => (r.childrenOf .items).filterMap Row.repoPath?

/-- Deletes an item, or asks whether it may be deleted. -/
def deleteAt (h : Host) (dryRun : Bool) (p : RepoPath) : Hosted (Except ActionFailure Unit) := do
  if dryRun then
    return if ← h.asksDelete p then .ok () else .error (.mayNotDelete p)
  else match ← h.deletes p with
    | some cause => return .error (.notDeleted p cause)
    | none => return .ok ()

/-- Sets properties of an item to a value, up to the first that cannot be set. -/
def setKeys (h : Host) (value : Option String) (p : RepoPath) :
    List String → Hosted (Except ActionFailure Unit)
  | [] => return .ok ()
  | k :: ks => do
    match ← h.edits p k value with
    | some cause => return .error (.notSet k value p cause)
    | none => setKeys h value p ks

/-- Sets the properties of an item, or asks whether they may be set. -/
def updateAt (h : Host) (a : Action) (p : RepoPath) : Hosted (Except ActionFailure Unit) := do
  if a.dryRun then
    return if ← h.asksAnnotate p then .ok () else .error (.mayNotAnnotate p)
  else setKeys h a.newValue p a.keys

/-- Updates items, up to the first that cannot be updated. -/
def updateAll (h : Host) (a : Action) : List RepoPath → Hosted (Except ActionFailure Unit)
  | [] => return .ok ()
  | p :: ps => do
    match ← a.updateAt h p with
    | .error f => return .error f
    | .ok () => updateAll h a ps

/-- Runs the action on a row. -/
def run (h : Host) (a : Action) (r : Row) : Hosted (Except ActionFailure Unit) :=
  if ¬ a.kind.supports r.domain then return .error (.unsupported a.kind r.domain)
  else match a.kind with
    | .find => return .ok ()
    | .delete => match r.repoPath? with
      | some p => deleteAt h a.dryRun p
      | none => return .error .noItem
    | .updateProperty =>
      if a.keys = [] then return .error .noKeys
      else if targets r = [] then return .error .noItemPath
      else a.updateAll h (targets r)

/-- The row, once the action has run on it. -/
def apply (h : Host) (a : Action) (r : Row) : Hosted (Except ActionFailure Row) := do
  match ← a.run h r with
  | .ok () => return .ok r
  | .error f => return .error f

end Action

end ArtifactQuery
