import LoxCalc.Expr.Builder
import LoxCalc.Expr.Depth

/-!
# Parsing

A parser stands somewhere in a list of tokens that ends with an end mark.  It never moves past the
**first** end mark, and tokens after that one are never looked at, except that the token before the
beginning of the list counts as its last.

* `Parser.parse` reads one whole expression: it gives a tree if and only if no problem is recorded;
* `Parser.readBy` reads by a single rule of the grammar and always gives a tree;
* `Parser.synchronize` moves to the next place where a statement may begin.
-/

namespace LoxCalc

/-- A position in a list of tokens, with the problems recorded so far. -/
structure Parser where
  /-- The tokens passed, last one first. -/
  before : List Token
  /-- The tokens up to the first end mark. -/
  ahead : List Token
  /-- The first end mark. -/
  stop : Token
  /-- The tokens after it. -/
  beyond : List Token
  errors : List Diagnostic
  ahead_not_end : ∀ t ∈ ahead, t.isEnd = false
  stop_isEnd : stop.isEnd = true

namespace Parser

/-- The tokens before the first end mark are not end marks. -/
theorem isEnd_of_mem_takeWhile {ts : List Token} {t : Token}
    (h : t ∈ ts.takeWhile fun t => !t.isEnd) : t.isEnd = false := by
  have all := List.all_takeWhile (p := fun t : Token => !t.isEnd) (l := ts)
  simpa using List.all_eq_true.mp all t h

/-- Where dropping stops there is an end mark. -/
theorem isEnd_of_dropWhile {ts rest : List Token} {t : Token}
    (h : (ts.dropWhile fun t => !t.isEnd) = t :: rest) : t.isEnd = true := by
  induction ts with
  | nil => simp at h
  | cons u us ih =>
    rw [List.dropWhile_cons] at h
    split at h
    · exact ih h
    · next hu => cases h; simpa using hu

/-- A parser at the beginning of a list of tokens, which has to end with an end mark. -/
def ofTokens (ts : List Token) : Except Defect Parser :=
  if ts.getLast?.any Token.isEnd then
    match h : ts.dropWhile fun t => !t.isEnd with
    | stop :: beyond =>
      .ok
        { before := []
          ahead := ts.takeWhile fun t => !t.isEnd
          stop, beyond
          errors := []
          ahead_not_end := fun _ => isEnd_of_mem_takeWhile
          stop_isEnd := isEnd_of_dropWhile h }
    | [] => .error .unterminatedTokens
  else .error .unterminatedTokens

/-- All tokens, wherever the parser stands. -/
def tokens (p : Parser) : List Token :=
  p.before.reverse ++ p.ahead ++ p.stop :: p.beyond

/-- A new parser has exactly the tokens it was given. -/
theorem tokens_ofTokens {ts : List Token} {p : Parser} (h : ofTokens ts = .ok p) :
    p.tokens = ts := by
  unfold ofTokens at h
  split at h
  · split at h
    · next stop beyond hd =>
      cases h
      simp [tokens, ← hd, List.takeWhile_append_dropWhile]
    · simp at h
  · simp at h

/-- The number of tokens passed. -/
def position (p : Parser) : Nat :=
  p.before.length

/-- Does the parser stand at the first end mark? -/
def atEnd (p : Parser) : Bool :=
  p.ahead.isEmpty

/-- The next token. -/
def peek (p : Parser) : Token :=
  p.ahead.headD p.stop

/-- The token passed last; at the beginning, the last token of all. -/
def previous (p : Parser) : Token :=
  p.before.headD (p.beyond.getLastD p.stop)

/-- Moves past the next `n` tokens, at most up to the first end mark. -/
def move (p : Parser) (n : Nat) : Parser :=
  { p with
    before := (p.ahead.take n).reverse ++ p.before
    ahead := p.ahead.drop n
    ahead_not_end := fun t h => p.ahead_not_end t (List.mem_of_mem_drop h) }

/-- Moving changes no token. -/
@[simp] theorem tokens_move (p : Parser) (n : Nat) : (p.move n).tokens = p.tokens := by
  simp only [tokens, move, List.reverse_append, List.reverse_reverse, List.append_assoc]
  rw [← List.append_assoc (p.ahead.take n), List.take_append_drop]

/-- Moves past the next token, if it is not an end mark, and gives the token passed last. -/
def advance (p : Parser) : Token × Parser :=
  ((p.move 1).previous, p.move 1)

/-- Is the next token of this kind?  An end mark is of no kind. -/
def check (p : Parser) (kind : Kind) : Bool :=
  p.ahead.head?.any fun t => t.kind == kind

/-- Moves past the next token if it is of one of these kinds. -/
def accept (p : Parser) (kinds : List Kind) : Bool × Parser :=
  if kinds.any p.check then (true, p.move 1) else (false, p)

/-- Records a problem with a token. -/
def complain (p : Parser) (t : Token) (message : String) : Parser :=
  { p with errors := p.errors ++ [.about t message] }

/-- Moves past a token of the given kind and gives that kind; any other token is left and the
message is recorded against it. -/
def expect (p : Parser) (kind : Kind) (message : String) : Kind × Parser :=
  if p.check kind then (p.peek.kind, p.move 1) else (.error, p.complain p.peek message)

/-- How many tokens to pass to reach the next boundary: just after a semicolon, just before a token
that begins a statement, or the end.  The first token is passed in any case. -/
def toBoundary : List Token → Nat
  | [] => 0
  | [_] => 1
  | t :: u :: rest =>
    if t.kind = .symbol .semicolon ∨ u.kind.startsStatement then 1 else toBoundary (u :: rest) + 1

/-- Moves to the next place where a statement may begin. -/
def synchronize (p : Parser) : Parser :=
  p.move (toBoundary p.ahead)

/-- Reads an expression by a rule of the grammar. -/
def readBy (p : Parser) (rule : Rule) : Expr × Parser :=
  let reading := read rule p.ahead p.stop
  let moved := p.move (p.ahead.length - reading.rest.length)
  (reading.expr, { moved with errors := p.errors ++ reading.errors })

/-- Reads a whole expression, which has to reach to the first end mark.  There is a tree if no
problem is recorded. -/
def parse (p : Parser) : Option Expr × Parser :=
  let (e, p) := p.readBy .expression
  let p := if p.errors.isEmpty && !p.atEnd then p.complain p.peek "Expect end of expression." else p
  (if p.errors.isEmpty then some e else none, p)

/-- Reads an expression by a rule, unless it is nested too deeply. -/
def readBy? (p : Parser) (rule : Rule) : Except Fault (Expr × Parser) :=
  let (e, p) := p.readBy rule
  if e.isReadable then .ok (e, p) else .error .tooDeep

/-- Reads a whole expression, unless it is nested too deeply. -/
def parse? (p : Parser) : Except Fault (Option Expr × Parser) :=
  if (p.readBy .expression).1.isReadable then .ok p.parse else .error .tooDeep

end Parser

end LoxCalc
