import LoxCalc.CommandLine
import LoxCalc.Diagnostic
import LoxCalc.Expr.Basic
import LoxCalc.Expr.Builder
import LoxCalc.Expr.Compare
import LoxCalc.Expr.Depth
import LoxCalc.Expr.Dump
import LoxCalc.Expr.Echo
import LoxCalc.Expr.Eval
import LoxCalc.Expr.Parser
import LoxCalc.Fault
import LoxCalc.Folder
import LoxCalc.Main
import LoxCalc.Number.Binary64
import LoxCalc.Number.Decimal
import LoxCalc.Number.Numeral
import LoxCalc.Number.Print
import LoxCalc.Program
import LoxCalc.Proofs.Grammar
import LoxCalc.Reporter
import LoxCalc.Session
import LoxCalc.Shell
import LoxCalc.Source.Cursor
import LoxCalc.Source.Scan
import LoxCalc.Source.Segment
import LoxCalc.Text.Blank
import LoxCalc.Text.DecimalDigit
import LoxCalc.Text.Lines
import LoxCalc.Text.Printable
import LoxCalc.Text.Quoted
import LoxCalc.Text.Utf8
import LoxCalc.Token.Basic
import LoxCalc.Token.Kind
import LoxCalc.Token.Operator
import LoxCalc.Value
import LoxCalc.Proofs.Recognition
import LoxCalc.Proofs.Parsing
import LoxCalc.Proofs.Lexical
import LoxCalc.Proofs.Scanning
import LoxCalc.Proofs.Numerals
import LoxCalc.Proofs.Soundness
import LoxCalc.Proofs.Safety
import LoxCalc.Proofs.ReadBack
import LoxCalc.Proofs.ViablePrefix
import LoxCalc.Proofs.Boundary
import LoxCalc.Proofs.Independence
import LoxCalc.Proofs.Shape
import LoxCalc.Proofs.Placement
import LoxCalc.Proofs.Layout
import LoxCalc.Proofs.Recovery
import LoxCalc.Proofs.Unclosed
import LoxCalc.Proofs.Verdicts
import LoxCalc.Proofs.FileMode
import LoxCalc.Proofs.Stripping
import LoxCalc.Proofs.ShellLines
import LoxCalc.Proofs.Lines
import LoxCalc.Proofs.Joining
import LoxCalc.Proofs.Strays
import LoxCalc.Proofs.Rendering
import LoxCalc.Proofs.Blame
import LoxCalc.Proofs.Adding
import LoxCalc.Proofs.Quoting
import LoxCalc.Proofs.Unambiguous
import LoxCalc.Proofs.Faithful
import LoxCalc.Proofs.Accounting
import LoxCalc.Proofs.BitPatterns
import LoxCalc.Proofs.Decimals
import LoxCalc.Proofs.QueueRuns
import LoxCalc.Proofs.NumberTexts
import LoxCalc.Proofs.NumberSources
import LoxCalc.Proofs.Quotients
import LoxCalc.Proofs.Descent
import LoxCalc.Proofs.DescentRules
import LoxCalc.Proofs.CursorSafety
import LoxCalc.Proofs.ReportLines
import LoxCalc.Proofs.Synchronizing
import LoxCalc.Proofs.Indentation
