import LoxCalc.Fault
import LoxCalc.Source.Scan

/-!
# Scanning step by step

A cursor stands somewhere in a source text and remembers where the current lexeme began.  Its
operations read single characters, the rest of a number, word or string, or a whole segment, from
wherever the cursor stands; the lexeme of a token is everything from the mark up to the cursor.

The rest of a number, word, string or comment is read one character at a time.  Only a string goes
over line feeds, so only `skipBody` counts lines.
-/

namespace LoxCalc

/-- A position in a source text, with what has been read so far. -/
structure Cursor where
  source : List Char
  /-- Where the current lexeme began. -/
  start : Nat := 0
  /-- Where the next character stands; past the end of the text there is none. -/
  current : Nat := 0
  line : Int := 1
  tokens : List Token := []
  errors : List Diagnostic := []

namespace Cursor

/-- A cursor at the beginning of a text. -/
def ofSource (source : String) : Cursor where
  source := source.toList

/-- The text after the cursor. -/
def rest (c : Cursor) : List Char :=
  c.source.drop c.current

/-- Is there no character left? -/
def atEnd (c : Cursor) : Bool :=
  c.source.length ≤ c.current

/-- The next character. -/
def peek (c : Cursor) : Option Char :=
  c.rest.head?

/-- The character after the next. -/
def peekNext (c : Cursor) : Option Char :=
  (c.rest.drop 1).head?

/-- Lets the current lexeme begin here. -/
def mark (c : Cursor) : Cursor :=
  { c with start := c.current }

/-- The text from the mark up to the cursor. -/
def lexeme (c : Cursor) : List Char :=
  (c.source.drop c.start).take (c.current - c.start)

/-- Moves past `n` characters. -/
def move (c : Cursor) (n : Nat) : Cursor :=
  { c with current := c.current + n }

/-- Moves past the next character and gives it; at the end the cursor moves all the same. -/
def advance (c : Cursor) : Except Defect Char × Cursor :=
  (match c.peek with
    | some ch => .ok ch
    | none => .error .pastEndOfSource, c.move 1)

/-- Moves on if what comes next is exactly `expected`, the end of the text counting as nothing. -/
def accept (c : Cursor) (expected : List Char) : Bool × Cursor :=
  if c.peek.toList = expected then (true, c.move 1) else (false, c)

/-- Records the current lexeme as a token. -/
def addToken (c : Cursor) (kind : Kind) (literal : Option String) : Cursor :=
  { c with tokens := c.tokens ++ [⟨kind, String.ofList c.lexeme, c.line, literal⟩] }

/-- Records a problem on the current line. -/
def complain (c : Cursor) (message : String) : Cursor :=
  { c with errors := c.errors ++ [.onLine c.line message] }

/-- Moving past characters drops them. -/
theorem rest_move (c : Cursor) (n : Nat) : (c.move n).rest = c.rest.drop n := by
  simp [rest, move]

/-- Past the next character there is less text. -/
theorem length_rest_move_lt {c : Cursor} {p : Char → Bool} (h : c.peek.any p = true) :
    (c.move 1).rest.length < c.rest.length := by
  rw [rest_move]
  cases hrest : c.rest with
  | nil => simp [peek, hrest] at h
  | cons ch cs => simp

/-- Moves on as long as the next character is one of `p`. -/
def skipWhile (p : Char → Bool) (c : Cursor) : Cursor :=
  if c.peek.any p then (c.move 1).skipWhile p else c
termination_by c.rest.length
decreasing_by exact length_rest_move_lt ‹_›

/-- Moves on up to the next quote and counts the line feeds on the way. -/
def skipBody (c : Cursor) : Cursor :=
  if c.peek.any fun ch => !isQuote ch then
    skipBody { c.move 1 with line := if c.peek = some '\n' then c.line + 1 else c.line }
  else c
termination_by c.rest.length
decreasing_by exact length_rest_move_lt (c := c) ‹_›

/-- Moves past the rest of a number: digits, then a point if digits follow it. -/
def skipNumber (c : Cursor) : Cursor :=
  let c := c.skipWhile Char.isDigit
  if c.peek = some '.' ∧ c.peekNext.any Char.isDigit then (c.move 1).skipWhile Char.isDigit else c

/-- Reads the rest of a string up to and including the closing quote. -/
def string (c : Cursor) : Cursor :=
  let c := c.skipBody
  if c.atEnd then c.complain "Unterminated string."
  else
    let c := c.move 1
    c.addToken .string (some (String.ofList ((c.lexeme.drop 1).dropLast)))

/-- Reads the rest of a number. -/
def number (c : Cursor) : Cursor :=
  let c := c.skipNumber
  c.addToken .number (some (String.ofList c.lexeme))

/-- Reads the rest of a word. -/
def word (c : Cursor) : Cursor :=
  let c := c.skipWhile isWordChar
  c.addToken (((Keyword.ofText? (String.ofList c.lexeme)).map Kind.keyword).getD .identifier) none

/-- Reads the symbol or stray character `ch`, which the cursor has just passed.  A symbol of two
characters is looked up under the whole lexeme. -/
def symbol (c : Cursor) (ch : Char) : Except Defect Unit × Cursor :=
  match pairSymbol? ch c.rest with
  | some _ =>
    let c := c.move 1
    match Symbol.ofChars? c.lexeme with
    | some s => (.ok (), c.addToken (.symbol s) none)
    | none => (.error (.unknownSymbol (String.ofList c.lexeme)), c)
  | none =>
    match Symbol.ofChars? [ch] with
    | some s => (.ok (), c.addToken (.symbol s) none)
    | none => (.ok (), c.complain "Unexpected character.")

/-- Reads one segment.  The mark stays where it is. -/
def scanSegment (c : Cursor) : Except Defect Unit × Cursor :=
  match c.advance with
  | (.error d, c) => (.error d, c)
  | (.ok ch, c) =>
    if isLayoutBlank ch then (.ok (), c)
    else if ch = '\n' then (.ok (), { c with line := c.line + 1 })
    else if ch = '/' ∧ (c.accept ['/']).1 then
      (.ok (), (c.accept ['/']).2.skipWhile (· != '\n'))
    else if isQuote ch then (.ok (), c.string)
    else if ch.isDigit then (.ok (), c.number)
    else if isWordStart ch then (.ok (), c.word)
    else c.symbol ch

/-- Reads everything that is left, each segment from a mark of its own, and the end mark. -/
def scanRest (c : Cursor) : Cursor :=
  let pieces := segments c.rest
  let scanned := Scan.ofSegments c.line pieces
  { c with
    start := (pieces.getLast?.map fun s => c.source.length - s.text.length).getD c.start
    current := max c.current c.source.length
    line := scanned.line
    tokens := c.tokens ++ scanned.tokens
    errors := c.errors ++ scanned.errors }

end Cursor

end LoxCalc
