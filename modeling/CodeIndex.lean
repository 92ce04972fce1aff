import CodeIndex.Archive
import CodeIndex.Build
import CodeIndex.Command.Line
import CodeIndex.Command.Run
import CodeIndex.Config
import CodeIndex.ConfigFile
import CodeIndex.Decimal.Double
import CodeIndex.Decimal.Shortest
import CodeIndex.Declaration
import CodeIndex.Dict
import CodeIndex.Discovery
import CodeIndex.Disk.Basic
import CodeIndex.Disk.Store
import CodeIndex.Event
import CodeIndex.Index
import CodeIndex.Json.Basic
import CodeIndex.Json.Number
import CodeIndex.Json.Printer
import CodeIndex.Json.Reader
import CodeIndex.Json.Record
import CodeIndex.Main
import CodeIndex.Path
import CodeIndex.Php.Extract
import CodeIndex.Php.Group
import CodeIndex.Php.Lexer
import CodeIndex.Php.Member
import CodeIndex.Php.Modifier
import CodeIndex.Php.Number
import CodeIndex.Php.Parser
import CodeIndex.Php.Signature
import CodeIndex.Php.Statement
import CodeIndex.Php.Term
import CodeIndex.Php.Token
import CodeIndex.Php.Tree
import CodeIndex.Proofs.Sql.CommentFree
import CodeIndex.Proofs.Sql.Piece
import CodeIndex.Proofs.Text.CharClass
import CodeIndex.Provenance
import CodeIndex.Query.Error
import CodeIndex.Query.Events
import CodeIndex.Query.Hint
import CodeIndex.Query.Lookup
import CodeIndex.Query.Nearest
import CodeIndex.Query.Search
import CodeIndex.Query.Tables
import CodeIndex.Render.Declaration
import CodeIndex.Render.Doc
import CodeIndex.Render.Report
import CodeIndex.Render.Shown
import CodeIndex.Render.Tables
import CodeIndex.Schema
import CodeIndex.Settings
import CodeIndex.Sql.Column
import CodeIndex.Sql.Comment
import CodeIndex.Sql.Key
import CodeIndex.Sql.Pattern
import CodeIndex.Sql.Quote
import CodeIndex.Sql.Script
import CodeIndex.Text.Blank
import CodeIndex.Text.Distance
import CodeIndex.Text.Lower
import CodeIndex.Text.Ranges
import CodeIndex.Text.Slice
import CodeIndex.Text.Utf8
import CodeIndex.Text.WordChar
import CodeIndex.Timestamp
import CodeIndex.Toml.Document
import CodeIndex.Toml.Scalar
import CodeIndex.Toml.Value
import CodeIndex.Tool
import CodeIndex.Proofs.Sql.Containment
import CodeIndex.Proofs.Sql.Silence
import CodeIndex.Proofs.Sql.Canonical
import CodeIndex.Proofs.Sql.Scan
import CodeIndex.Proofs.Sql.Written
import CodeIndex.Proofs.Sql.Parts
import CodeIndex.Proofs.Sql.Atoms
import CodeIndex.Proofs.Sql.ColumnRead
import CodeIndex.Proofs.Sql.KeyRead
import CodeIndex.Proofs.Sql.OptionsRead
import CodeIndex.Proofs.Sql.RoundTrip
import CodeIndex.Proofs.Build.Cache
import CodeIndex.Proofs.Disk.Frame
import CodeIndex.Proofs.Disk.Save
import CodeIndex.Proofs.Build.Session
import CodeIndex.Proofs.Archive.Json
import CodeIndex.Proofs.Archive.RoundTrip
import CodeIndex.Proofs.Build.Batches
import CodeIndex.Proofs.Index.Maps
import CodeIndex.Proofs.Query.Order
import CodeIndex.Proofs.Disk.LastName
import CodeIndex.Proofs.Disk.Way
import CodeIndex.Proofs.Disk.Walk
import CodeIndex.Proofs.Disk.Swap
import CodeIndex.Proofs.Disk.Keep
import CodeIndex.Proofs.Disk.Persistence
import CodeIndex.Proofs.Build.Reuse
import CodeIndex.Proofs.Php.Isolation
import CodeIndex.Proofs.Php.Scope
import CodeIndex.Proofs.Text.Squeeze
import CodeIndex.Proofs.Sql.Reading
import CodeIndex.Proofs.Sql.Spacing
import CodeIndex.Proofs.Sql.SpacingTable
import CodeIndex.Proofs.Sql.CommentStep
import CodeIndex.Proofs.Sql.LineComments
import CodeIndex.Proofs.Sql.Template
import CodeIndex.Proofs.Sql.TemplateBody
import CodeIndex.Proofs.Sql.TemplatePart
import CodeIndex.Proofs.Sql.Literals
import CodeIndex.Proofs.Text.Trim
import CodeIndex.Proofs.Text.LetterCase
import CodeIndex.Proofs.Query.Decision
import CodeIndex.Proofs.Query.LetterCase
import CodeIndex.Proofs.Path.Pieces
import CodeIndex.Proofs.Path.Relative
import CodeIndex.Proofs.Tool.Relocation
import CodeIndex.Proofs.Query.Ranking
import CodeIndex.Proofs.Tool.Mistakes
import CodeIndex.Proofs.Config.Loading
import CodeIndex.Proofs.Text.Distance
import CodeIndex.Proofs.Text.Strip
import CodeIndex.Proofs.Query.Tables
import CodeIndex.Proofs.Query.Suggestions
import CodeIndex.Proofs.Index.Events
import CodeIndex.Proofs.Query.Events
import CodeIndex.Proofs.Index.Counts
import CodeIndex.Proofs.Sql.Cuts
import CodeIndex.Proofs.Sql.Leader
import CodeIndex.Proofs.Sql.Search
import CodeIndex.Proofs.Sql.Flags
import CodeIndex.Proofs.Sql.Whole
import CodeIndex.Proofs.Render.Kept
import CodeIndex.Proofs.Render.Truncation
import CodeIndex.Proofs.Sql.KeyList
import CodeIndex.Proofs.Sql.KeyOptions
import CodeIndex.Proofs.Config.Patterns
import CodeIndex.Proofs.Path.Remaining
import CodeIndex.Proofs.Render.ShownPath
import CodeIndex.Proofs.Disk.Atomic
import CodeIndex.Proofs.Php.DocBlock
import CodeIndex.Proofs.Php.Promotion
import CodeIndex.Proofs.Discovery.Names
import CodeIndex.Proofs.Discovery.Reading
import CodeIndex.Proofs.Discovery.Exact
import CodeIndex.Proofs.Php.Spelling
import CodeIndex.Proofs.Php.Names
import CodeIndex.Proofs.Sql.Closing
import CodeIndex.Proofs.Index.ShortNames
import CodeIndex.Proofs.Build.Provenance
import CodeIndex.Proofs.Text.Lines
import CodeIndex.Proofs.Sql.ColumnTexts
import CodeIndex.Proofs.Render.Grid
import CodeIndex.Proofs.Render.DocText
