import LoxCalc.Diagnostic
import LoxCalc.Source.Segment

/-!
# Scanning

The tokens and diagnostics of a source text, read off its segments in order.  A string, a number, a
word or a symbol gives a token; a stray character or a string without a closing quote gives a
diagnostic; the rest gives nothing.  All of them carry the line on which their segment **ends**, so
a string of several lines is on its last one.
-/

namespace LoxCalc

namespace Segment

/-- The line on which a segment ends if it starts on `line`; the next segment starts there. -/
def lineAfter (line : Int) (s : Segment) : Int :=
  line + s.text.count '\n'

/-- The token of a segment that ends on `line`. -/
def token? (line : Int) (s : Segment) : Option Token :=
  let lexeme := String.ofList s.text
  match s.cls with
  | .string => some ⟨.string, lexeme, line, some (String.ofList (s.text.drop 1).dropLast)⟩
  | .number => some ⟨.number, lexeme, line, some lexeme⟩
  | .word => some ⟨((Keyword.ofText? lexeme).map Kind.keyword).getD .identifier, lexeme, line, none⟩
  | .symbol sym => some ⟨.symbol sym, lexeme, line, none⟩
  | _ => none

/-- The diagnostic of a segment that ends on `line`. -/
def diagnostic? (line : Int) (s : Segment) : Option Diagnostic :=
  match s.cls with
  | .openString => some (.onLine line "Unterminated string.")
  | .stray => some (.onLine line "Unexpected character.")
  | _ => none

end Segment

/-- The outcome of scanning: tokens, diagnostics and the last line. -/
structure Scan where
  tokens : List Token
  errors : List Diagnostic
  line : Int
  deriving DecidableEq

namespace Scan

/-- Reads off segments, the first of which starts on `line`. -/
def ofSegments (line : Int) : List Segment → Scan
  | [] => ⟨[Token.endOfSource line], [], line⟩
  | s :: rest =>
    let tail := ofSegments (s.lineAfter line) rest
    ⟨(s.token? (s.lineAfter line)).toList ++ tail.tokens,
      (s.diagnostic? (s.lineAfter line)).toList ++ tail.errors, tail.line⟩

/-- Scans characters that start on `line`. -/
def ofChars (line : Int) (cs : List Char) : Scan :=
  ofSegments line (segments cs)

end Scan

/-- Scans a source text. -/
def scan (source : String) : Scan :=
  Scan.ofChars 1 source.toList

end LoxCalc
