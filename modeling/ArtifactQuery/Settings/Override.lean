import ArtifactQuery.Settings.Basic
import ArtifactQuery.Signed64

/-!
# Overriding settings

Variables of the environment go before the settings of a document. Blank ones count as missing.

* `Setting`: what a variable can override, in the order in which this is done.
* `Settings.override`: the settings under variables. At the first variable with a bad value it
  stops, and those before it stay in force.
-/

namespace ArtifactQuery

/-- What a variable can override. -/
inductive Setting
  | dialect
  | eagerLimit
  | dryRunDefault
  | logFilter
  | trashcanEnabled
  deriving DecidableEq, Repr

/-- The variables of an environment. -/
abbrev Variables := String → Option String

namespace Setting

/-- All settings that variables override, in their order. -/
def all : List Setting := [dialect, eagerLimit, dryRunDefault, logFilter, trashcanEnabled]

/-- The name of the setting's variable. -/
def name : Setting → String
  | dialect => "AQL_DIALECT"
  | eagerLimit => "AQL_EAGER_LIMIT"
  | dryRunDefault => "AQL_DRY_RUN_DEFAULT"
  | logFilter => "AQL_LOG_FILTER"
  | trashcanEnabled => "AQL_TRASHCAN_ENABLED"

end Setting

namespace Settings

/-- The truth that the value of a variable stands for. -/
def flag (name value : String) : Except RunError Bool :=
  match Dialect.smallLetters (trim value) with
  | "true" | "1" | "yes" => .ok true
  | "false" | "0" | "no" => .ok false
  | s => .error (.settings (.flagText name s))

/-- The dialect that the value of a variable names. -/
def dialectOf (value : String) : Except RunError Dialect :=
  match Dialect.ofText value with
  | .ok d => .ok d
  | .error e => .error (.settings (.dialect e))

/-- The number that the value of a variable spells. -/
def limitOf (value : String) : Except RunError Int :=
  match Signed64.ofText? (trim value) with
  | some n => .ok n
  | none => .error (.settings (.eagerLimitText value))

/-- The settings with one of them given by the value of its variable. -/
def put (s : Settings) (k : Setting) (value : String) : Except RunError Settings :=
  match k with
  | .dialect => (dialectOf value).map fun d => { s with dialect := d }
  | .eagerLimit => (limitOf value).map fun n => { s with eagerLimit := n }
  | .dryRunDefault => (flag k.name value).map fun b => { s with dryRunDefault := b }
  | .logFilter => .ok { s with logFilter := value }
  | .trashcanEnabled =>
    (flag k.name value).map fun b => { s with trashcan := { s.trashcan with enabled := b } }

/-- The value of a variable, unless it is blank. -/
def nonBlank? (vars : Variables) (name : String) : Option String :=
  (vars name).filter (trim · ≠ "")

/-- The settings under the variables of some of them, and what stopped this. -/
def overrideBy (vars : Variables) (s : Settings) : List Setting → Settings × Except RunError Unit
  | [] => (s, .ok ())
  | k :: ks => match nonBlank? vars k.name with
    | none => overrideBy vars s ks
    | some value => match s.put k value with
      | .ok s => overrideBy vars s ks
      | .error e => (s, .error e)

/-- The settings under variables, and what stopped this. -/
def override (vars : Variables) (s : Settings) : Settings × Except RunError Unit :=
  s.overrideBy vars Setting.all

end Settings

end ArtifactQuery
