import QueryCanvas.Canvas.Basic
import QueryCanvas.Canvas.Block
import QueryCanvas.Canvas.Cte
import QueryCanvas.Canvas.Edit
import QueryCanvas.Canvas.Id
import QueryCanvas.Canvas.Table
import QueryCanvas.Canvas.Tree
import QueryCanvas.Canvas.Vocabulary
import QueryCanvas.CarryOver
import QueryCanvas.Catalog
import QueryCanvas.Command
import QueryCanvas.CommandLine
import QueryCanvas.Data.Basic
import QueryCanvas.Data.Json
import QueryCanvas.Data.JsonText
import QueryCanvas.Data.Toml
import QueryCanvas.Diagnosis
import QueryCanvas.Lesson
import QueryCanvas.Main
import QueryCanvas.NameMap
import QueryCanvas.Number.Decimal
import QueryCanvas.Number.Double
import QueryCanvas.Parameter
import QueryCanvas.Proofs.Arrangement.Arranged
import QueryCanvas.Proofs.Arrangement.Components
import QueryCanvas.Proofs.Arrangement.InScope
import QueryCanvas.Proofs.Arrangement.NormalForm
import QueryCanvas.Proofs.Arrangement.Once
import QueryCanvas.Proofs.Arrangement.Places
import QueryCanvas.Proofs.Arrangement.Recast
import QueryCanvas.Proofs.Arrangement.Redrawn
import QueryCanvas.Proofs.Arrangement.Rounds
import QueryCanvas.Proofs.Arrangement.Sides
import QueryCanvas.Proofs.Canvas.Anchored
import QueryCanvas.Proofs.Canvas.Chosen
import QueryCanvas.Proofs.Canvas.Circles
import QueryCanvas.Proofs.Canvas.CutOut
import QueryCanvas.Proofs.Canvas.EachTable
import QueryCanvas.Proofs.Canvas.Edits
import QueryCanvas.Proofs.Canvas.Focus
import QueryCanvas.Proofs.Canvas.Grown
import QueryCanvas.Proofs.Canvas.Hole
import QueryCanvas.Proofs.Canvas.Linked
import QueryCanvas.Proofs.Canvas.Links
import QueryCanvas.Proofs.Canvas.Numbered
import QueryCanvas.Proofs.Canvas.Ordered
import QueryCanvas.Proofs.Canvas.Redrawn
import QueryCanvas.Proofs.Canvas.Relabelled
import QueryCanvas.Proofs.Canvas.Removed
import QueryCanvas.Proofs.Canvas.Results
import QueryCanvas.Proofs.Canvas.Serial
import QueryCanvas.Proofs.Canvas.Sheets
import QueryCanvas.Proofs.Canvas.Toggled
import QueryCanvas.Proofs.Canvas.Tree
import QueryCanvas.Proofs.Canvas.WellFormed
import QueryCanvas.Proofs.CarryOver.Aggregates
import QueryCanvas.Proofs.CarryOver.Anchored
import QueryCanvas.Proofs.CarryOver.Apart
import QueryCanvas.Proofs.CarryOver.Followed
import QueryCanvas.Proofs.CarryOver.InPlace
import QueryCanvas.Proofs.CarryOver.Kept
import QueryCanvas.Proofs.CarryOver.Links
import QueryCanvas.Proofs.CarryOver.Matching
import QueryCanvas.Proofs.CarryOver.Nested
import QueryCanvas.Proofs.CarryOver.Numbered
import QueryCanvas.Proofs.CarryOver.Relabelled
import QueryCanvas.Proofs.CarryOver.Shape
import QueryCanvas.Proofs.CarryOver.Shown
import QueryCanvas.Proofs.Data.JsonText
import QueryCanvas.Proofs.Data.Numerals
import QueryCanvas.Proofs.Data.TextNesting
import QueryCanvas.Proofs.Diagnosis.Columns
import QueryCanvas.Proofs.Diagnosis.Joins
import QueryCanvas.Proofs.Diagnosis.Redrawn
import QueryCanvas.Proofs.Diagnosis.RenamedCte
import QueryCanvas.Proofs.Lesson.Layouts
import QueryCanvas.Proofs.Lesson.Shown
import QueryCanvas.Proofs.Reading.Aliases
import QueryCanvas.Proofs.Reading.Attributed
import QueryCanvas.Proofs.Reading.Conditions
import QueryCanvas.Proofs.Reading.Depicted
import QueryCanvas.Proofs.Reading.Drawn
import QueryCanvas.Proofs.Reading.Goes
import QueryCanvas.Proofs.Reading.Heeded
import QueryCanvas.Proofs.Reading.Levels
import QueryCanvas.Proofs.Reading.Literals
import QueryCanvas.Proofs.Reading.Lossless
import QueryCanvas.Proofs.Reading.Numbered
import QueryCanvas.Proofs.Reading.OwnSources
import QueryCanvas.Proofs.Reading.Parameters
import QueryCanvas.Proofs.Reading.Pieces
import QueryCanvas.Proofs.Reading.Reached
import QueryCanvas.Proofs.Reading.Relabelled
import QueryCanvas.Proofs.Reading.Shifted
import QueryCanvas.Proofs.Reading.Sources
import QueryCanvas.Proofs.Reading.Steps
import QueryCanvas.Proofs.Reading.WellFormed
import QueryCanvas.Proofs.Reading.WrittenValues
import QueryCanvas.Proofs.Reconcile.Inside
import QueryCanvas.Proofs.Reconcile.OwnText
import QueryCanvas.Proofs.Reconcile.Relabelled
import QueryCanvas.Proofs.Reconcile.Replaced
import QueryCanvas.Proofs.Reconcile.Said
import QueryCanvas.Proofs.Reconcile.Taken
import QueryCanvas.Proofs.Reconcile.Unchanged
import QueryCanvas.Proofs.Saved.Reload
import QueryCanvas.Proofs.Session.Announcements
import QueryCanvas.Proofs.Session.Changes
import QueryCanvas.Proofs.Session.Chosen
import QueryCanvas.Proofs.Session.Circles
import QueryCanvas.Proofs.Session.CutOut
import QueryCanvas.Proofs.Session.Identifiers
import QueryCanvas.Proofs.Session.Keystrokes
import QueryCanvas.Proofs.Session.OwnText
import QueryCanvas.Proofs.Session.Pointer
import QueryCanvas.Proofs.Session.References
import QueryCanvas.Proofs.Session.Shown
import QueryCanvas.Proofs.Session.Turns
import QueryCanvas.Proofs.Session.Unfinished
import QueryCanvas.Proofs.Shape.Redrawn
import QueryCanvas.Proofs.Shape.Sets
import QueryCanvas.Proofs.Sql.Indentation
import QueryCanvas.Proofs.Sql.Layouts
import QueryCanvas.Proofs.Sql.OneCondition
import QueryCanvas.Proofs.Sql.Parameters
import QueryCanvas.Proofs.Sql.Parsing
import QueryCanvas.Proofs.Sql.Parts
import QueryCanvas.Proofs.Sql.PieceEnds
import QueryCanvas.Proofs.Sql.Qualifier
import QueryCanvas.Proofs.Sql.Quote
import QueryCanvas.Proofs.Sql.Quoted
import QueryCanvas.Proofs.Sql.References
import QueryCanvas.Proofs.Sql.ResultNames
import QueryCanvas.Proofs.Sql.Scanning
import QueryCanvas.Proofs.Sql.Script
import QueryCanvas.Proofs.Sql.Surrounded
import QueryCanvas.Proofs.Sql.Unmasking
import QueryCanvas.Proofs.Sql.WholeLines
import QueryCanvas.Proofs.Sql.WrittenParameters
import QueryCanvas.Proofs.Sql.WrittenValues
import QueryCanvas.Proofs.Text.Words
import QueryCanvas.Proofs.Written.Canonical
import QueryCanvas.Proofs.Written.Conditions
import QueryCanvas.Proofs.Written.Cut
import QueryCanvas.Proofs.Written.Forms
import QueryCanvas.Proofs.Written.Lexed
import QueryCanvas.Proofs.Written.Normal
import QueryCanvas.Proofs.Written.Operands
import QueryCanvas.Proofs.Written.Queries
import QueryCanvas.Proofs.Written.ReadBack
import QueryCanvas.Proofs.Written.ReadConditions
import QueryCanvas.Proofs.Written.ReadFrom
import QueryCanvas.Proofs.Written.ReadResults
import QueryCanvas.Proofs.Written.Reread
import QueryCanvas.Proofs.Written.Results
import QueryCanvas.Proofs.Written.Selects
import QueryCanvas.Proofs.Written.Sources
import QueryCanvas.Proofs.Written.Takes
import QueryCanvas.Proofs.Written.Texts
import QueryCanvas.Proofs.Written.Values
import QueryCanvas.Reconcile
import QueryCanvas.Saved
import QueryCanvas.Session
import QueryCanvas.Settings
import QueryCanvas.Shape
import QueryCanvas.Sql.Arrangement
import QueryCanvas.Sql.Ast
import QueryCanvas.Sql.Dialect
import QueryCanvas.Sql.Grammar.Call
import QueryCanvas.Sql.Grammar.Change
import QueryCanvas.Sql.Grammar.Expression
import QueryCanvas.Sql.Grammar.Literal
import QueryCanvas.Sql.Grammar.Operand
import QueryCanvas.Sql.Grammar.Queries
import QueryCanvas.Sql.Grammar.Select
import QueryCanvas.Sql.Grammar.Statement
import QueryCanvas.Sql.Grammar.Strength
import QueryCanvas.Sql.Grammar.Tables
import QueryCanvas.Sql.Keyword
import QueryCanvas.Sql.Lexer
import QueryCanvas.Sql.Parser
import QueryCanvas.Sql.Print
import QueryCanvas.Sql.Query
import QueryCanvas.Sql.Quote
import QueryCanvas.Sql.Reading
import QueryCanvas.Sql.Reference
import QueryCanvas.Sql.Render
import QueryCanvas.Sql.Token
import QueryCanvas.Text.Blank
import QueryCanvas.Text.Case
import QueryCanvas.Text.Letter
