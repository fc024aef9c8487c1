import SqlSignature.Analysis.Error
import SqlSignature.Analysis.Modification
import SqlSignature.Analysis.Outline
import SqlSignature.Analysis.Report
import SqlSignature.Analysis.Resolver
import SqlSignature.Analysis.Rule
import SqlSignature.Analysis.Scope
import SqlSignature.Analysis.Selection
import SqlSignature.Analysis.Shape
import SqlSignature.Analysis.State
import SqlSignature.Analysis.Tables
import SqlSignature.Analysis.Walk
import SqlSignature.BoundText
import SqlSignature.Catalog
import SqlSignature.Catalog.Document
import SqlSignature.ColumnType
import SqlSignature.Config
import SqlSignature.Config.Document
import SqlSignature.Cursor
import SqlSignature.Describe
import SqlSignature.Expr
import SqlSignature.Expr.NullRejection
import SqlSignature.Expr.Nullability
import SqlSignature.Expr.Traversal
import SqlSignature.Fragment
import SqlSignature.Function
import SqlSignature.Grammar
import SqlSignature.Grammar.Expression
import SqlSignature.Grammar.Knot
import SqlSignature.Grammar.Name
import SqlSignature.Grammar.Query
import SqlSignature.Grammar.Statement
import SqlSignature.Inference.Solver
import SqlSignature.Inference.TypeVars
import SqlSignature.Json
import SqlSignature.Json.Reader
import SqlSignature.Json.Record
import SqlSignature.Json.Writer
import SqlSignature.Keyword
import SqlSignature.Layout
import SqlSignature.Literal
import SqlSignature.Nested
import SqlSignature.Number.Binary64
import SqlSignature.Number.Shortest
import SqlSignature.Operator
import SqlSignature.ParseError
import SqlSignature.Parser
import SqlSignature.ResultColumn
import SqlSignature.Signature
import SqlSignature.Signature.Document
import SqlSignature.Span
import SqlSignature.SqlType
import SqlSignature.SqlType.Promotion
import SqlSignature.Statement
import SqlSignature.Text.Blank
import SqlSignature.Text.Case
import SqlSignature.Text.Letter
import SqlSignature.Text.Numeral
import SqlSignature.Text.Ranges
import SqlSignature.Text.Repertoire
import SqlSignature.Text.Slice
import SqlSignature.Text.Upper
import SqlSignature.Text.WordCharacter
import SqlSignature.Token
import SqlSignature.Token.Lexer
import SqlSignature.Proofs.Evaluation
import SqlSignature.Proofs.NullRejection
import SqlSignature.Proofs.WalkFrame
import SqlSignature.Proofs.ConstraintOrder
import SqlSignature.Proofs.JoinNullability
import SqlSignature.Proofs.SolverTermination
import SqlSignature.Proofs.Alignment
import SqlSignature.Proofs.ParameterSlots
import SqlSignature.Proofs.DeclaredColumns
import SqlSignature.Proofs.ParameterMerge
import SqlSignature.Proofs.BoundTypes
import SqlSignature.Proofs.DerivedTable
import SqlSignature.Proofs.UnionOrder
import SqlSignature.Proofs.NodeTable
import SqlSignature.Proofs.TokenCoverage
import SqlSignature.Proofs.StatementReplay
import SqlSignature.Proofs.FilterLayout
import SqlSignature.Proofs.CatalogHistory
import SqlSignature.Proofs.CatalogFiling
import SqlSignature.Proofs.NestedRelations
import SqlSignature.Proofs.NotedNames
import SqlSignature.Proofs.ExpressionNullability
import SqlSignature.Proofs.PinnedKey
import SqlSignature.Proofs.ResultNames
import SqlSignature.Proofs.ParentPaths
import SqlSignature.Proofs.RelationNames
import SqlSignature.Proofs.QualifiedNames
import SqlSignature.Proofs.OperatorPrecedence
import SqlSignature.Proofs.SpanNesting
import SqlSignature.Proofs.QuotedText
import SqlSignature.Proofs.ConjunctPartition
import SqlSignature.Proofs.ClassHistory
import SqlSignature.Proofs.NumberLiterals
import SqlSignature.Proofs.PinnedClasses
import SqlSignature.Proofs.SolvedConstraints
