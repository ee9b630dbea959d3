import ArtifactQuery.Settings.Basic
import ArtifactQuery.Toml.Document
import ArtifactQuery.Toml.Writing

/-!
# Settings as documents

* `Settings.ofText`: the settings of a TOML document. What it does not set keeps its default, and
  what is no setting is left aside.
* `Settings.text`: the document of all settings.
-/

namespace ArtifactQuery

namespace Toml

/-- The content of a text. -/
def text? : Toml → Option String
  | text s => some s
  | _ => none

/-- The number that a value is. -/
def int? : Toml → Option Int
  | int n => some n
  | _ => none

/-- The truth that a value is. -/
def truth? : Toml → Option Bool
  | truth b => some b
  | _ => none

/-- Whether the value is an array or a table without content. -/
def isHollow : Toml → Bool
  | array [] | table _ [] => true
  | _ => false

/-- The name that is chosen: a text, or the only key of a table, where it has nothing. -/
def choice? : Toml → Option String
  | text s => some s
  | table _ [(k, v)] => if v.isHollow then some k else none
  | _ => none

end Toml

/-- A value under a key, or a default where the key is missing; a value that `read` refuses is none.
-/
def Toml.field {α : Type} (key : String) (read : Toml → Option α) (default : α)
    (es : List (String × Toml)) : Option α :=
  match es.lookup key with
  | some v => read v
  | none => some default

/-- A value at a place of an array, or a default behind its end. -/
def Toml.item {α : Type} (n : Nat) (read : Toml → Option α) (default : α) (vs : List Toml) :
    Option α :=
  match vs[n]? with
  | some v => read v
  | none => some default

namespace TrashcanSettings

/-- The settings of a table, or of an array that gives the values in their order. -/
def ofToml? : Toml → Option TrashcanSettings
  | .table _ es => do
    let d : TrashcanSettings := {}
    some
      { enabled := ← Toml.field "enabled" Toml.truth? d.enabled es
        repoKey := ← Toml.field "repo_key" Toml.text? d.repoKey es
        timeKey := ← Toml.field "trash_time_key" Toml.text? d.timeKey es }
  | .array vs => do
    let d : TrashcanSettings := {}
    some
      { enabled := ← Toml.item 0 Toml.truth? d.enabled vs
        repoKey := ← Toml.item 1 Toml.text? d.repoKey vs
        timeKey := ← Toml.item 2 Toml.text? d.timeKey vs }
  | _ => none

end TrashcanSettings

namespace Settings

/-- The settings of the entries of a document. -/
def ofEntries? (es : List (String × Toml)) : Option Settings := do
  let d : Settings := {}
  some
    { dialect := ← Toml.field "dialect" (·.choice?.bind Dialect.named?) d.dialect es
      eagerLimit := ← Toml.field "eager_limit" Toml.int? d.eagerLimit es
      dryRunDefault := ← Toml.field "dry_run_default" Toml.truth? d.dryRunDefault es
      logFilter := ← Toml.field "log_filter" Toml.text? d.logFilter es
      trashcan := ← Toml.field "trashcan" TrashcanSettings.ofToml? d.trashcan es }

/-- The settings of a document. -/
def ofText (s : String) : Except RunError Settings :=
  match (Toml.ofText? s).bind ofEntries? with
  | some settings => .ok settings
  | none => .error (.settings .unreadable)

/-- A line that sets a key. -/
def line (key value : String) : String := key ++ " = " ++ value ++ "\n"

/-- A truth as it is written in a document. -/
def truthText (b : Bool) : String := if b then "true" else "false"

/-- The document of all settings. -/
def text (s : Settings) : String :=
  line "dialect" (Toml.quote s.dialect.name) ++ line "eager_limit" (toString s.eagerLimit) ++
    line "dry_run_default" (truthText s.dryRunDefault) ++
    line "log_filter" (Toml.quote s.logFilter) ++ "\n[trashcan]\n" ++
    line "enabled" (truthText s.trashcan.enabled) ++
    line "repo_key" (Toml.quote s.trashcan.repoKey) ++
    line "trash_time_key" (Toml.quote s.trashcan.timeKey)

end Settings

end ArtifactQuery
