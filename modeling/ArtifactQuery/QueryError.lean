import ArtifactQuery.Query
import ArtifactQuery.Language.Token

/-!
# Errors of a query

Why a query is refused. Every error is a cause with the data that its message names; the wording is
in the `message` functions alone.

* `QueryError`: the ten kinds of errors, each with its causes.
* `QueryError.message`: the kind's heading and the cause in words.
-/

namespace ArtifactQuery

/-- The text does not spell a query. -/
inductive SyntaxCause
  | unexpectedCharacter (c : Char) (position : Nat)
  | decimalNumber (position : Nat)
  | numberOutOfRange (digits : String)
  | unterminatedText
  | expectedToken (wanted found : Token)
  | expectedIdentifier (found : Token)
  | expectedText (found : Token)
  | expectedNumber (found : Token)
  | textIsNoNumber (s : String)
  | expectedValue (found : Token)
  | expectedMembers (c : Connective) (found : Token)
  | afterQuery (found : Token)
  | unknownMethod (name : String)
  | dryRunText (s : String)
  | dryRunToken (found : Token)
  | comparatorAsField (key : String)
  | noComparator (field : String)
  | missingDomain
  | missingComparator (field : String)
  | missingValue (field : String)
  deriving DecidableEq, Repr

/-- The cause in words. -/
def SyntaxCause.message : SyntaxCause → String
  | unexpectedCharacter c p => s!"Unexpected character '{c}' at position {p}"
  | decimalNumber p => s!"Decimal numbers are not supported at position {p}"
  | numberOutOfRange t => s!"Invalid number: {t}"
  | unterminatedText => "Unterminated string"
  | expectedToken w t => s!"Expected {w.shown}, found {t.shown}"
  | expectedIdentifier t => s!"Expected identifier, found {t.shown}"
  | expectedText t => s!"Expected string, found {t.shown}"
  | expectedNumber t => s!"Expected number, found {t.shown}"
  | textIsNoNumber s => s!"Expected number, found \"{s}\""
  | expectedValue t => s!"Expected value, found {t.shown}"
  | expectedMembers c t => s!"Expected array or object after {c.signature}, found {t.shown}"
  | afterQuery t => s!"Unexpected {t.shown} after query"
  | unknownMethod n => s!"Unknown method: {n}"
  | dryRunText s => s!"Invalid dryRun value: {s}"
  | dryRunToken t => s!"Invalid dryRun value: {t.shown}"
  | comparatorAsField k => s!"Unexpected comparator {k} where a field was expected"
  | noComparator f => s!"No comparator given for field {f}"
  | missingDomain => "missing domain"
  | missingComparator f => s!"missing comparator for {f}"
  | missingValue f => s!"missing value for {f}"

/-- A name resolves to no field. -/
inductive FieldCause
  | path (p : String)
  | noProperties (key : String) (d : Domain)
  deriving DecidableEq, Repr

/-- The cause in words. -/
def FieldCause.message : FieldCause → String
  | path p => p
  | noProperties k d => s!"@{k} on {d.plural}"

/-- The elements of a query form no condition, or the query cannot be selected. -/
inductive MalformedCause
  | missingOperator (before : Criterion)
  | missingOperatorBeforeParen
  | unexpectedCloseParen
  | noLeftOperand (connective : Element)
  | unbalanced
  | endsWithOperator
  | clauseNeverOpened
  | clausesLeftOpen (count : Nat)
  | fieldOnTheRight (f : Field)
  | noPropertyKey (left : Operand)
  | noResultFields (d : Domain)
  | tooManyJoins
  | noTables
  deriving DecidableEq, Repr

/-- The cause in words. -/
def MalformedCause.message : MalformedCause → String
  | missingOperator c => s!"missing operator before {c.shown}"
  | missingOperatorBeforeParen => "missing operator before '('"
  | unexpectedCloseParen => "unexpected ')'"
  | noLeftOperand e => s!"operator {e.shown} without left operand"
  | unbalanced => "unbalanced parenthesis"
  | endsWithOperator => "query ends with an operator"
  | clauseNeverOpened => "closing a clause that was never opened"
  | clausesLeftOpen n => s!"{n} clause(s) left open"
  | fieldOnTheRight f => s!"field {f.identifier} on the right side of a criterion"
  | noPropertyKey l => s!"property criterion without key: {l.shown}"
  | noResultFields d => s!"no result fields for {d.plural}"
  | tooManyJoins => "too many result joins"
  | noTables => "no tables to select from"

/-- A value does not suit its place. -/
inductive ValueCause
  | notANumber (s : String)
  | notADate (s : String)
  | notAnIsoDate (s : String)
  | unknownItemType (s : String)
  | notAnItemType (s : String)
  | notASpan (s : String)
  | unknownUnit (unit : String) (s : String)
  | spanOutOfRange (s : String)
  | negativeOffset (n : Int)
  | negativeLimit (n : Int)
  | anyHasNoCode
  | nullParameter
  deriving DecidableEq, Repr

/-- The cause in words. -/
def ValueCause.message : ValueCause → String
  | notANumber s => s!"'{s}' is not a number"
  | notADate s => s!"'{s}' is not a date"
  | notAnIsoDate s => s!"'{s}' is not an ISO-8601 date"
  | unknownItemType s => s!"'{s}' is not an item type, expected file, folder or any"
  | notAnItemType s => s!"'{s}' is not an item type"
  | notASpan s => s!"'{s}' is not a relative time"
  | unknownUnit u s => s!"unknown time unit '{u}' in '{s}'"
  | spanOutOfRange s => s!"relative time '{s}' is out of range"
  | negativeOffset n => s!"negative offset {n}"
  | negativeLimit n => s!"negative limit {n}"
  | anyHasNoCode => "item type 'any' has no stored code"
  | nullParameter => "null cannot be bound as a parameter"

/-- A comparator does not suit what it compares. -/
inductive ComparatorCause
  | unknown (signature : String)
  | spanOnNonDate (path : String)
  | nullOn (c : Comparator) (path : String)
  | onNonText (c : Comparator) (path : String)
  | onItemType (c : Comparator)
  | onProperty (c : Comparator) (key : String)
  | withNull (c : Comparator)
  | patternIsNoText (c : Comparator) (v : Value)
  | unresolvedSpan (c : Comparator)
  | betweenValues (c : Comparator)
  deriving DecidableEq, Repr

/-- The cause in words. -/
def ComparatorCause.message : ComparatorCause → String
  | unknown s => s
  | spanOnNonDate p => s!"relative time comparison on non-date field {p}"
  | nullOn c p => s!"{c.signature} null on {p}"
  | onNonText c p => s!"{c.signature} on non-text field {p}"
  | onItemType c => s!"{c.signature} on item type"
  | onProperty c k => s!"{c.signature} on property @{k}"
  | withNull c => s!"{c.signature} null"
  | patternIsNoText c v => s!"{c.signature} on non-text value {v.shown}"
  | unresolvedSpan c => s!"unresolved relative comparator {c.signature}"
  | betweenValues c => s!"{c.signature} between two values"

/-- The rows cannot be ordered as asked. -/
inductive SortCause
  | noFields
  | notReturned (f : Field)
  | notSelected (f : Field)
  | unknownField (path : String)
  | unknownDirection (s : String)
  | givenTwice
  deriving DecidableEq, Repr

/-- The cause in words. -/
def SortCause.message : SortCause → String
  | noFields => "no sort fields given"
  | notReturned f => s!"{f.name} is not a result field"
  | notSelected f => s!"{f.identifier} is not a result field"
  | unknownField p => s!"unknown sort field {p}"
  | unknownDirection s => s!"unknown direction {s}"
  | givenTwice => "sort given more than once"

/-- The action or its parameters do not suit the query. -/
inductive ActionCause
  | unknown (name : String)
  | unsupported (k : ActionKind) (d : Domain)
  | parameters (k : ActionKind)
  | dryRunOfFind
  deriving DecidableEq, Repr

/-- The cause in words. -/
def ActionCause.message : ActionCause → String
  | unknown n => n
  | unsupported k d => s!"{k.name} is not supported on {d.plural}"
  | parameters k => s!"keys and newValue only apply to update, not {k.name}"
  | dryRunOfFind => "dryRun does not apply to find"

/-- The schema or the dialect does not provide what is asked. -/
inductive ConfigurationCause
  | unknownDialect (name : String)
  | noLink (a b : Table)
  deriving DecidableEq, Repr

/-- The cause in words. -/
def ConfigurationCause.message : ConfigurationCause → String
  | unknownDialect n => s!"unknown dialect: {n}"
  | noLink a b => s!"no link between {a.name} and {b.name}"

/-- Why a query is refused. -/
inductive QueryError
  | parse (cause : SyntaxCause)
  | unknownDomain (name : String)
  | unknownField (cause : FieldCause)
  | domainMismatch (c : Criterion) (d : Domain)
  | malformed (cause : MalformedCause)
  | invalidValue (cause : ValueCause)
  | unsupportedComparator (cause : ComparatorCause)
  | invalidSort (cause : SortCause)
  | invalidAction (cause : ActionCause)
  | configuration (cause : ConfigurationCause)
  deriving DecidableEq, Repr

/-- The kind's heading and the cause in words. -/
def QueryError.message : QueryError → String
  | parse c => "Parse error: " ++ c.message
  | unknownDomain n => "Unknown domain: " ++ n
  | unknownField c => "Unknown field: " ++ c.message
  | domainMismatch c d => s!"Domain mismatch: criterion {c.shown} does not start from {d.plural}"
  | malformed c => "Malformed query: " ++ c.message
  | invalidValue c => "Invalid value: " ++ c.message
  | unsupportedComparator c => "Unsupported comparator: " ++ c.message
  | invalidSort c => "Invalid sort: " ++ c.message
  | invalidAction c => "Invalid action: " ++ c.message
  | configuration c => "Configuration error: " ++ c.message

end ArtifactQuery
