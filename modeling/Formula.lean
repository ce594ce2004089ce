import Formula.Arithmetic
import Formula.Builtin
import Formula.Cache
import Formula.Calculator
import Formula.Config
import Formula.Console
import Formula.Cursor
import Formula.Decimal.Fixed
import Formula.Decimal.Shortest
import Formula.Decimal.Style
import Formula.Environment
import Formula.Evaluation
import Formula.Event
import Formula.Expr
import Formula.Literal
import Formula.Logged
import Formula.Main
import Formula.Normal
import Formula.Operator
import Formula.ParseError
import Formula.Reading
import Formula.SampleRange
import Formula.Sampling
import Formula.Text.Alphabetic
import Formula.Text.Blank
import Formula.Text.CharClass
import Formula.Text.Occurrence
import Formula.Text.Quoted
import Formula.Token
import Formula.Proofs.Phrase
import Formula.Proofs.ReadingGrammar
import Formula.Proofs.PlainText
import Formula.Proofs.WrittenTrees
import Formula.Proofs.CacheHistory
import Formula.Proofs.UncachedAnswers
import Formula.Proofs.Pointwise
import Formula.Proofs.Failures
import Formula.Proofs.Front
import Formula.Proofs.ReadingFailures
import Formula.Proofs.EarliestError
import Formula.Proofs.ErrorPlaces
import Formula.Proofs.OpenGroups
import Formula.Proofs.ReadingLog
import Formula.Proofs.MissingParentheses
import Formula.Proofs.Graph
import Formula.Proofs.Nesting
import Formula.Proofs.Origins
import Formula.Proofs.Lexemes
import Formula.Proofs.OtherNames
import Formula.Proofs.UnboundVariables
import Formula.Proofs.Precedence
import Formula.Proofs.DroppedTerms
import Formula.Proofs.OnePass
import Formula.Proofs.TrigStep
import Formula.Proofs.LiteralValues
import Formula.Proofs.TreeEquality
import Formula.Proofs.Head
import Formula.Proofs.Contract
import Formula.Proofs.HeadContract
import Formula.Proofs.HeadRoutines
import Formula.Proofs.HeadDiscipline
