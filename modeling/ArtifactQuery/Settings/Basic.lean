import ArtifactQuery.Policy.Trashcan
import ArtifactQuery.RunError
import ArtifactQuery.Sql.Dialect

/-!
# Settings

* `Settings`: what an operator may choose, with the values that hold otherwise.
* `Settings.check`: the settings can be worked with.
-/

namespace ArtifactQuery

/-- What an operator may choose. -/
structure Settings where
  dialect : Dialect := .derby
  /-- The number of rows at most that a result at hand holds. -/
  eagerLimit : Int := 10000
  /-- Whether an action changes nothing unless a query says otherwise. -/
  dryRunDefault : Bool := true
  /-- Which messages are logged. -/
  logFilter : String := "artifact_aql=info,aql_core=info"
  trashcan : TrashcanSettings := {}
  deriving DecidableEq, Repr

/-- Refuses settings that cannot be worked with. -/
def Settings.check (s : Settings) : Except RunError Unit :=
  if s.eagerLimit ≤ 0 then .error (.settings (.eagerLimit s.eagerLimit))
  else if s.trashcan.enabled ∧ s.trashcan.repoKey = "" then .error (.settings .noTrashcanRepo)
  else .ok ()

end ArtifactQuery
