import AugmentedBnf.Assertion
import AugmentedBnf.Charset
import AugmentedBnf.CommandLine.Arguments
import AugmentedBnf.CommandLine.Run
import AugmentedBnf.CompileError
import AugmentedBnf.Document.Basic
import AugmentedBnf.Document.Json
import AugmentedBnf.Document.JsonReader
import AugmentedBnf.Document.Yaml
import AugmentedBnf.Document.YamlScalar
import AugmentedBnf.Evaluation.ActiveNames
import AugmentedBnf.Evaluation.Basic
import AugmentedBnf.Evaluation.Cursor
import AugmentedBnf.Evaluation.Matcher
import AugmentedBnf.Evaluation.Node
import AugmentedBnf.Evaluation.Path
import AugmentedBnf.Evaluation.Query
import AugmentedBnf.Expression.Basic
import AugmentedBnf.Expression.Levels
import AugmentedBnf.Expression.Parser
import AugmentedBnf.Expression.Printer
import AugmentedBnf.Format.NodeDocument
import AugmentedBnf.Format.Outline
import AugmentedBnf.Format.Registry
import AugmentedBnf.Grammar.Basic
import AugmentedBnf.Grammar.CoreText
import AugmentedBnf.Grammar.Indexed
import AugmentedBnf.Grammar.Mode
import AugmentedBnf.Grammar.Rule
import AugmentedBnf.Literal
import AugmentedBnf.Main
import AugmentedBnf.Proofs.Charset.Rendering
import AugmentedBnf.Proofs.Charset.Runs
import AugmentedBnf.Proofs.Evaluation.ActiveNames
import AugmentedBnf.Proofs.Evaluation.Address
import AugmentedBnf.Proofs.Evaluation.Attempt
import AugmentedBnf.Proofs.Evaluation.Erasure
import AugmentedBnf.Proofs.Evaluation.History
import AugmentedBnf.Proofs.Evaluation.Language
import AugmentedBnf.Proofs.Evaluation.Lengths
import AugmentedBnf.Proofs.Evaluation.Lockstep
import AugmentedBnf.Proofs.Evaluation.NodeLaws
import AugmentedBnf.Proofs.Evaluation.NodeSpans
import AugmentedBnf.Proofs.Evaluation.Operators
import AugmentedBnf.Proofs.Evaluation.Paths
import AugmentedBnf.Proofs.Evaluation.Position
import AugmentedBnf.Proofs.Evaluation.Printed
import AugmentedBnf.Proofs.Evaluation.Query
import AugmentedBnf.Proofs.Evaluation.Reachability
import AugmentedBnf.Proofs.Evaluation.Reading
import AugmentedBnf.Proofs.Evaluation.Recognition
import AugmentedBnf.Proofs.Evaluation.Repetition
import AugmentedBnf.Proofs.Evaluation.Room
import AugmentedBnf.Proofs.Evaluation.Run
import AugmentedBnf.Proofs.Evaluation.Simplification
import AugmentedBnf.Proofs.Evaluation.Termination
import AugmentedBnf.Proofs.Evaluation.Transparency
import AugmentedBnf.Proofs.Evaluation.Tree
import AugmentedBnf.Proofs.Expression.Accounting
import AugmentedBnf.Proofs.Expression.Folds
import AugmentedBnf.Proofs.Expression.Layout
import AugmentedBnf.Proofs.Expression.Lexemes
import AugmentedBnf.Proofs.Expression.Normal
import AugmentedBnf.Proofs.Expression.Phrase
import AugmentedBnf.Proofs.Expression.Printing
import AugmentedBnf.Proofs.Expression.Reading
import AugmentedBnf.Proofs.Expression.Refusal
import AugmentedBnf.Proofs.Expression.Rereading
import AugmentedBnf.Proofs.Expression.RoundTrip
import AugmentedBnf.Proofs.Expression.Seam
import AugmentedBnf.Proofs.Expression.Steps
import AugmentedBnf.Proofs.Format.Outline
import AugmentedBnf.Proofs.Grammar.Causes
import AugmentedBnf.Proofs.Grammar.Core
import AugmentedBnf.Proofs.Grammar.Definitions
import AugmentedBnf.Proofs.Grammar.Extension
import AugmentedBnf.Proofs.Grammar.Index
import AugmentedBnf.Proofs.Grammar.Layering
import AugmentedBnf.Proofs.Grammar.Layout
import AugmentedBnf.Proofs.Grammar.LineEndings
import AugmentedBnf.Proofs.Grammar.Listing
import AugmentedBnf.Proofs.Grammar.Merge
import AugmentedBnf.Proofs.Grammar.Names
import AugmentedBnf.Proofs.Grammar.NormalForm
import AugmentedBnf.Proofs.Grammar.Progress
import AugmentedBnf.Proofs.Grammar.Redefinition
import AugmentedBnf.Proofs.Grammar.Refusal
import AugmentedBnf.Proofs.Grammar.Table
import AugmentedBnf.Proofs.Literal.Numeric
import AugmentedBnf.Proofs.Literal.Quoted
import AugmentedBnf.Proofs.Text.Cut
import AugmentedBnf.Proofs.Text.Numeral
import AugmentedBnf.Proofs.Text.PrefixCode
import AugmentedBnf.Proofs.Token.Alike
import AugmentedBnf.Proofs.Token.Cuts
import AugmentedBnf.Proofs.Token.Genuine
import AugmentedBnf.Proofs.Token.Index
import AugmentedBnf.Proofs.Token.Layout
import AugmentedBnf.Proofs.Token.Lexeme
import AugmentedBnf.Proofs.Token.Munch
import AugmentedBnf.Proofs.Token.Pattern
import AugmentedBnf.Proofs.Token.Seam
import AugmentedBnf.Proofs.Token.Visible
import AugmentedBnf.Settings.Basic
import AugmentedBnf.Settings.Key
import AugmentedBnf.Settings.Setting
import AugmentedBnf.Text.Basic
import AugmentedBnf.Text.Bytes
import AugmentedBnf.Text.CaseTables
import AugmentedBnf.Text.Cased
import AugmentedBnf.Text.Casing
import AugmentedBnf.Text.CodeRanges
import AugmentedBnf.Text.Extender
import AugmentedBnf.Text.Numeral
import AugmentedBnf.Text.Printable
import AugmentedBnf.Text.Quoted
import AugmentedBnf.Text.Scan
import AugmentedBnf.Token.IndexedStream
import AugmentedBnf.Token.Kind
import AugmentedBnf.Token.Lexer
import AugmentedBnf.Token.Stream
import AugmentedBnf.Toml.Lexical
import AugmentedBnf.Toml.Number
import AugmentedBnf.Toml.Reader
import AugmentedBnf.Toml.Tables
