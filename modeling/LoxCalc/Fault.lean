import LoxCalc.Diagnostic
import LoxCalc.Text.Utf8

/-!
# Faults

What can stop a computation.  A **complaint** is meant for the user and consists of diagnostics.  A
**defect** is a failure that no source text should cause; it is told apart by its cause, and
`Defect.label` and `Defect.message` hold all the wording.  Besides these a computation may be
interrupted, nest too deeply, or ask for the program to end.
-/

namespace LoxCalc

/-- The stage of the interpreter that a complaint comes from. -/
inductive Stage
  | general
  | parsing
  | evaluation
  deriving DecidableEq

/-- Problems to be reported to the user. -/
structure Complaint where
  stage : Stage
  diagnostics : List Diagnostic
  /-- Is the problem one of the interpreter itself? -/
  isInternal : Bool := false
  deriving DecidableEq

namespace Complaint

/-- A complaint that consists of one message. -/
def ofMessage (message : String) : Complaint :=
  ⟨.general, [⟨message, none, none⟩], false⟩

/-- A problem of the interpreter itself. -/
def ofInternal (message : String) : Complaint :=
  ⟨.general, [⟨message, none, none⟩], true⟩

/-- The diagnostics of a complaint, one after the other on lines of their own. -/
def message (c : Complaint) : String :=
  String.intercalate "\n" (c.diagnostics.map Diagnostic.render)

end Complaint

/-- The causes of failure that are not complaints. -/
inductive Defect
  /-- A token list does not end with the end mark. -/
  | unterminatedTokens
  /-- A literal of a kind that has no value. -/
  | valuelessLiteral (kind : Kind)
  | unknownUnary (lexeme : String)
  | unknownBinary (lexeme : String)
  /-- The text of a number literal is no numeral. -/
  | badNumeral (text : String)
  /-- A number literal has no text. -/
  | missingNumeral
  /-- A string without text was to be printed. -/
  | unprintable
  /-- The left one of two strings to be joined has no text; does the right one have one? -/
  | textlessLeft (rightHasText : Bool)
  /-- The right one alone of two strings to be joined has no text. -/
  | textlessRight
  /-- No kind of token has this text. -/
  | unknownKind (text : String)
  /-- No symbol is spelled like this. -/
  | unknownSymbol (text : String)
  | pastEndOfSource
  | noSuchDiagnostic
  | nothingToPop
  | nulInPath
  | undecodable (m : Text.Utf8.Malformed)
  /-- A failure of any other origin. -/
  | foreign (label message : String)
  deriving DecidableEq

namespace Defect

/-- The word by which a report names the sort of a defect. -/
def label : Defect → String
  | unterminatedTokens | valuelessLiteral _ | unknownUnary _ | unknownBinary _ => "AssertionError"
  | badNumeral _ | unknownKind _ | nulInPath => "ValueError"
  | missingNumeral | unprintable | textlessLeft _ | textlessRight => "TypeError"
  | unknownSymbol _ => "KeyError"
  | pastEndOfSource | noSuchDiagnostic | nothingToPop => "IndexError"
  | undecodable _ => "UnicodeDecodeError"
  | foreign label _ => label

/-- The wording of a defect. -/
def message : Defect → String
  | unterminatedTokens => "token list must end with EOF"
  | valuelessLiteral kind => "cannot evaluate " ++ kind.name ++ " literal"
  | unknownUnary lexeme => "unary with invalid operator '" ++ lexeme ++ "'"
  | unknownBinary lexeme => "binary with invalid operator '" ++ lexeme ++ "'"
  | badNumeral text => "could not convert string to float: " ++ Text.quoted text
  | missingNumeral => "float() argument must be a string or a real number, not 'NoneType'"
  | unprintable => "__str__ returned non-string (type NoneType)"
  | textlessLeft rightHasText =>
    "unsupported operand type(s) for +: 'NoneType' and "
      ++ (if rightHasText then "'str'" else "'NoneType'")
  | textlessRight => "can only concatenate str (not \"NoneType\") to str"
  | unknownKind text => Text.quoted text ++ " is not a valid TokenType"
  | unknownSymbol text => Text.quoted text
  | pastEndOfSource => "string index out of range"
  | noSuchDiagnostic => "list index out of range"
  | nothingToPop => "pop from empty list"
  | nulInPath => "embedded null byte"
  | undecodable m => m.message
  | foreign _ message => message

end Defect

/-- How the program ends when it is asked to. -/
inductive ExitStatus
  | unspecified
  | code (n : Int)
  | message (s : String)
  deriving DecidableEq

/-- What can stop a computation. -/
inductive Fault
  | complaint (c : Complaint)
  /-- The user interrupted the computation. -/
  | interrupt (text : String)
  /-- An expression is nested too deeply. -/
  | tooDeep
  /-- The program is to end. -/
  | exit (status : ExitStatus)
  | defect (d : Defect)
  deriving DecidableEq

end LoxCalc
