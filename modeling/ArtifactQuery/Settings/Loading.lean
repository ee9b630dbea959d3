import ArtifactQuery.Settings.Document
import ArtifactQuery.Settings.EnvFile
import ArtifactQuery.Settings.Override

/-!
# Loading settings

* `Settings.load`: the settings of a document under the variables of an environment and of a file.
  They are checked before they are handed out.
-/

namespace ArtifactQuery

/-- What settings are loaded from. -/
structure SettingsSource where
  /-- The document of settings, if there is one. -/
  document : Option String := none
  /-- The file of variables, if there is one. -/
  envFile : Option String := none
  environment : List (String × String) := []

/-- The environment, with the assignments of the file of variables. -/
def SettingsSource.variables (s : SettingsSource) : List (String × String) :=
  match s.envFile with
  | some file => EnvFile.load s.environment file
  | none => s.environment

/-- The settings of a source. -/
def Settings.load (src : SettingsSource) : Except RunError Settings := do
  let s ← match src.document with
    | some text => Settings.ofText text
    | none => .ok {}
  let (s, outcome) := s.override fun name => src.variables.lookup name
  outcome
  s.check
  return s

end ArtifactQuery
