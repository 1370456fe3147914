import Typeahead.CommandLine.Arguments
import Typeahead.CommandLine.Given
import Typeahead.CommandLine.Parameter
import Typeahead.CommandLine.Reading
import Typeahead.CommandLine.Run
import Typeahead.Completion.Collation
import Typeahead.Completion.Complete
import Typeahead.Completion.Item
import Typeahead.Completion.Markup
import Typeahead.Completion.Matching
import Typeahead.Completion.Options
import Typeahead.Completion.Recency
import Typeahead.Completion.Script
import Typeahead.Config.Field
import Typeahead.Config.Json5
import Typeahead.Config.Logging
import Typeahead.Config.Name
import Typeahead.Config.Settings
import Typeahead.Document
import Typeahead.Entries
import Typeahead.Grammar.Class
import Typeahead.Grammar.Error
import Typeahead.Grammar.Expression
import Typeahead.Grammar.Literal
import Typeahead.Grammar.Production
import Typeahead.Grammar.Recovery
import Typeahead.Grammar.Script
import Typeahead.Grammar.State
import Typeahead.Grammar.Statement
import Typeahead.Inference.Chain
import Typeahead.Inference.Extract
import Typeahead.Inference.Guess
import Typeahead.Inference.Infer
import Typeahead.Inference.Offered
import Typeahead.Language
import Typeahead.Main
import Typeahead.Markup.Css
import Typeahead.Markup.Html
import Typeahead.Number.Binary64
import Typeahead.Number.Numeral
import Typeahead.Number.Shortest
import Typeahead.Proofs.Braces.Document
import Typeahead.Proofs.Braces.Expressions
import Typeahead.Proofs.Braces.Height
import Typeahead.Proofs.Braces.Level
import Typeahead.Proofs.Braces.Literals
import Typeahead.Proofs.Braces.Statements
import Typeahead.Proofs.CarriageReturn
import Typeahead.Proofs.Chain.Backward
import Typeahead.Proofs.Chain.Broken
import Typeahead.Proofs.Chain.Forward
import Typeahead.Proofs.Chain.Links
import Typeahead.Proofs.Chain.Optional
import Typeahead.Proofs.Chain.Steps
import Typeahead.Proofs.Chain.Strip
import Typeahead.Proofs.Chain.Typed
import Typeahead.Proofs.Chain.Written
import Typeahead.Proofs.ClassMembers
import Typeahead.Proofs.Completion.Attributes
import Typeahead.Proofs.Completion.Collation
import Typeahead.Proofs.Completion.Entries
import Typeahead.Proofs.Completion.Labels
import Typeahead.Proofs.Completion.Narrowing
import Typeahead.Proofs.Completion.Picking
import Typeahead.Proofs.Completion.Recency
import Typeahead.Proofs.Completion.Ties
import Typeahead.Proofs.Depth.Chain
import Typeahead.Proofs.Depth.Expressions
import Typeahead.Proofs.Depth.Literals
import Typeahead.Proofs.Depth.Run
import Typeahead.Proofs.Depth.Script
import Typeahead.Proofs.Depth.Statements
import Typeahead.Proofs.Depth.Tree
import Typeahead.Proofs.Guesses
import Typeahead.Proofs.Highlight
import Typeahead.Proofs.Hoisting.Agreement
import Typeahead.Proofs.Hoisting.Alongside
import Typeahead.Proofs.Hoisting.Front
import Typeahead.Proofs.Hoisting.Insertion
import Typeahead.Proofs.Hoisting.Lockstep
import Typeahead.Proofs.Hoisting.Names
import Typeahead.Proofs.Hoisting.Relocation
import Typeahead.Proofs.Hoisting.Stable
import Typeahead.Proofs.Hoisting.Undisturbed
import Typeahead.Proofs.Hoisting.Walk
import Typeahead.Proofs.Inheritance
import Typeahead.Proofs.Layout.Expressions
import Typeahead.Proofs.Layout.Literals
import Typeahead.Proofs.Layout.Ranges
import Typeahead.Proofs.Layout.Run
import Typeahead.Proofs.Layout.Script
import Typeahead.Proofs.Layout.Statements
import Typeahead.Proofs.Layout.Tree
import Typeahead.Proofs.LineBreak
import Typeahead.Proofs.LineEnd
import Typeahead.Proofs.Lines
import Typeahead.Proofs.Members
import Typeahead.Proofs.Memory
import Typeahead.Proofs.Modes
import Typeahead.Proofs.Offsets
import Typeahead.Proofs.Parse.Begins
import Typeahead.Proofs.Parse.Beside
import Typeahead.Proofs.Parse.Built
import Typeahead.Proofs.Parse.Carry
import Typeahead.Proofs.Parse.Clean
import Typeahead.Proofs.Parse.Compare
import Typeahead.Proofs.Parse.Expressions
import Typeahead.Proofs.Parse.Heads
import Typeahead.Proofs.Parse.Intact
import Typeahead.Proofs.Parse.Items
import Typeahead.Proofs.Parse.Literals
import Typeahead.Proofs.Parse.Local
import Typeahead.Proofs.Parse.NoBlock
import Typeahead.Proofs.Parse.Progress
import Typeahead.Proofs.Parse.Run
import Typeahead.Proofs.Parse.Same
import Typeahead.Proofs.Parse.Script
import Typeahead.Proofs.Parse.Source
import Typeahead.Proofs.Parse.Statements
import Typeahead.Proofs.Parse.Stuck
import Typeahead.Proofs.Precedence.Climbing
import Typeahead.Proofs.Precedence.Tree
import Typeahead.Proofs.Recovery.Document
import Typeahead.Proofs.Recovery.Faults
import Typeahead.Proofs.Recovery.Levels
import Typeahead.Proofs.Restriction.Agreement
import Typeahead.Proofs.Restriction.Brackets
import Typeahead.Proofs.Restriction.Classes
import Typeahead.Proofs.Restriction.Expressions
import Typeahead.Proofs.Scan
import Typeahead.Proofs.Scope.Additions
import Typeahead.Proofs.Scope.Bound
import Typeahead.Proofs.Scope.Deepest
import Typeahead.Proofs.Scope.Descent
import Typeahead.Proofs.Scope.Keep
import Typeahead.Proofs.Scope.Nesting
import Typeahead.Proofs.Scope.Operations
import Typeahead.Proofs.Scope.Outline
import Typeahead.Proofs.Scope.OwnName
import Typeahead.Proofs.Scope.Room
import Typeahead.Proofs.Scope.Settled
import Typeahead.Proofs.Scope.Spread
import Typeahead.Proofs.Scope.Steps
import Typeahead.Proofs.Scope.This
import Typeahead.Proofs.Scope.Untyped
import Typeahead.Proofs.Scope.Visibility
import Typeahead.Proofs.Scope.Visits
import Typeahead.Proofs.Scope.Walk
import Typeahead.Proofs.Span
import Typeahead.Proofs.Spelling
import Typeahead.Proofs.StringLiteral.Closing
import Typeahead.Proofs.StringLiteral.Written
import Typeahead.Proofs.Unfinished.Declare
import Typeahead.Proofs.Unfinished.Document
import Typeahead.Proofs.Unfinished.Parse
import Typeahead.Proofs.Unfinished.Scopes
import Typeahead.Proofs.Unfinished.Statements
import Typeahead.Report.Completion
import Typeahead.Report.Json
import Typeahead.Report.Scopes
import Typeahead.Report.Text
import Typeahead.Report.Tree
import Typeahead.Report.Types
import Typeahead.Scope.Binder
import Typeahead.Scope.Binding
import Typeahead.Scope.Environment
import Typeahead.Scope.Tree
import Typeahead.Text.Alphabetic
import Typeahead.Text.Blank
import Typeahead.Text.Identifier
import Typeahead.Text.LetterCase
import Typeahead.Text.Lines
import Typeahead.Text.Mark
import Typeahead.Text.Numeric
import Typeahead.Text.Quoting
import Typeahead.Text.Range
import Typeahead.Text.Ranges
import Typeahead.Text.Search
import Typeahead.Text.Units
import Typeahead.Token.Basic
import Typeahead.Token.Escape
import Typeahead.Token.Highlight
import Typeahead.Token.Kind
import Typeahead.Token.Lexeme
import Typeahead.Token.Punctuator
import Typeahead.Token.Scan
import Typeahead.Token.Stream
import Typeahead.Tree.Node
import Typeahead.Tree.Shape
import Typeahead.Types.Basic
import Typeahead.Types.Catalog
import Typeahead.Types.Display
import Typeahead.Types.Environment
import Typeahead.Types.Evaluation
import Typeahead.Types.Globals
import Typeahead.Types.Member
import Typeahead.Types.Spelling
