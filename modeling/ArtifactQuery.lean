import ArtifactQuery.Action
import ArtifactQuery.CommandLine.Arguments
import ArtifactQuery.CommandLine.Outcome
import ArtifactQuery.CommandLine.Place
import ArtifactQuery.Compilation
import ArtifactQuery.Criterion
import ArtifactQuery.Domain
import ArtifactQuery.Draft
import ArtifactQuery.Engine
import ArtifactQuery.FieldPath
import ArtifactQuery.FluentQuery
import ArtifactQuery.Host
import ArtifactQuery.Json
import ArtifactQuery.Language.Cursor
import ArtifactQuery.Language.Lexer
import ArtifactQuery.Language.Parser
import ArtifactQuery.Language.Statement
import ArtifactQuery.Language.Token
import ArtifactQuery.Main
import ArtifactQuery.Policy
import ArtifactQuery.Policy.Conjunction
import ArtifactQuery.Policy.ItemTypes
import ArtifactQuery.Policy.ReadScope
import ArtifactQuery.Policy.Trashcan
import ArtifactQuery.Policy.ValueHeads
import ArtifactQuery.Policy.VirtualRepos
import ArtifactQuery.Proofs.Acceptance
import ArtifactQuery.Proofs.Adapting
import ArtifactQuery.Proofs.Aliases
import ArtifactQuery.Proofs.AssembledRows
import ArtifactQuery.Proofs.CellsReadBack
import ArtifactQuery.Proofs.CivilDates
import ArtifactQuery.Proofs.ClauseValues
import ArtifactQuery.Proofs.ClosedCursors
import ArtifactQuery.Proofs.Compiling
import ArtifactQuery.Proofs.Complements
import ArtifactQuery.Proofs.Completion
import ArtifactQuery.Proofs.ConditionForms
import ArtifactQuery.Proofs.ConditionGrammar
import ArtifactQuery.Proofs.ConditionTruth
import ArtifactQuery.Proofs.ConditionWords
import ArtifactQuery.Proofs.Deeds
import ArtifactQuery.Proofs.DeniedProperties
import ArtifactQuery.Proofs.FieldPaths
import ArtifactQuery.Proofs.FirstOccurrences
import ArtifactQuery.Proofs.FlatForm
import ArtifactQuery.Proofs.Formulas
import ArtifactQuery.Proofs.FoundTargets
import ArtifactQuery.Proofs.Framing
import ArtifactQuery.Proofs.FrontEnds
import ArtifactQuery.Proofs.HiddenTrash
import ArtifactQuery.Proofs.JoinOrder
import ArtifactQuery.Proofs.JoinPaths
import ArtifactQuery.Proofs.Joins
import ArtifactQuery.Proofs.KeptCriteria
import ArtifactQuery.Proofs.LikePatterns
import ArtifactQuery.Proofs.MaskedTexts
import ArtifactQuery.Proofs.MergedRows
import ArtifactQuery.Proofs.MergedTrees
import ArtifactQuery.Proofs.Numbering
import ArtifactQuery.Proofs.OrderTerms
import ArtifactQuery.Proofs.Outcome
import ArtifactQuery.Proofs.OuterJoins
import ArtifactQuery.Proofs.Paging
import ArtifactQuery.Proofs.Placeholders
import ArtifactQuery.Proofs.PlainNames
import ArtifactQuery.Proofs.Planning
import ArtifactQuery.Proofs.Policies
import ArtifactQuery.Proofs.PrintedTokens
import ArtifactQuery.Proofs.Printing
import ArtifactQuery.Proofs.PropertyHeads
import ArtifactQuery.Proofs.PropertyTests
import ArtifactQuery.Proofs.ReadFilter
import ArtifactQuery.Proofs.Renderable
import ArtifactQuery.Proofs.RepoMembers
import ArtifactQuery.Proofs.ResolvedNames
import ArtifactQuery.Proofs.ResultColumns
import ArtifactQuery.Proofs.Scoping
import ArtifactQuery.Proofs.SharedIds
import ArtifactQuery.Proofs.SingleProperty
import ArtifactQuery.Proofs.Spans
import ArtifactQuery.Proofs.Spelling
import ArtifactQuery.Proofs.StatementHeads
import ArtifactQuery.Proofs.StatementTexts
import ArtifactQuery.Proofs.StatementWords
import ArtifactQuery.Proofs.StoredItems
import ArtifactQuery.Proofs.StreamedDocuments
import ArtifactQuery.Proofs.TestCriteria
import ArtifactQuery.Proofs.TextParts
import ArtifactQuery.Proofs.Truth
import ArtifactQuery.Proofs.Walks
import ArtifactQuery.Proofs.WhereClauses
import ArtifactQuery.Proofs.Words
import ArtifactQuery.Proofs.Writing
import ArtifactQuery.Proofs.WrittenInstants
import ArtifactQuery.Query
import ArtifactQuery.QueryError
import ArtifactQuery.Resolution
import ArtifactQuery.Result.Assembly
import ArtifactQuery.Result.Cursor
import ArtifactQuery.Result.Document
import ArtifactQuery.Result.Eager
import ArtifactQuery.Result.Lazy
import ArtifactQuery.Row.Basic
import ArtifactQuery.Row.Cell
import ArtifactQuery.Row.Merging
import ArtifactQuery.Row.RepoPath
import ArtifactQuery.RunError
import ArtifactQuery.Schema.Field
import ArtifactQuery.Schema.Table
import ArtifactQuery.Settings.Basic
import ArtifactQuery.Settings.Document
import ArtifactQuery.Settings.EnvFile
import ArtifactQuery.Settings.Loading
import ArtifactQuery.Settings.Override
import ArtifactQuery.Signed64
import ArtifactQuery.Sql.Condition
import ArtifactQuery.Sql.Dialect
import ArtifactQuery.Sql.JoinPlan
import ArtifactQuery.Sql.Listing
import ArtifactQuery.Sql.Rendering
import ArtifactQuery.Sql.Select
import ArtifactQuery.Sql.Statement
import ArtifactQuery.Sql.Window
import ArtifactQuery.Store
import ArtifactQuery.Text.Blank
import ArtifactQuery.Text.CharSet
import ArtifactQuery.Text.Letter
import ArtifactQuery.Text.Numeral
import ArtifactQuery.Text.Reader
import ArtifactQuery.Text.Segments
import ArtifactQuery.Text.Wildcard
import ArtifactQuery.TextQuery
import ArtifactQuery.Time.Calendar
import ArtifactQuery.Time.Instant
import ArtifactQuery.Time.Span
import ArtifactQuery.Toml.Basic
import ArtifactQuery.Toml.Document
import ArtifactQuery.Toml.Scalar
import ArtifactQuery.Toml.Writing
import ArtifactQuery.Typing
import ArtifactQuery.Value
