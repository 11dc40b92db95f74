import LoxCalc.Proofs.Parsing

/-!
# Reading by recursive descent

The rules of the grammar may also be read by calling each other, from an index
that moves along the list of tokens.  Here nothing but the program itself keeps
that index inside the list: a look at a token **halts** where the list has none,
and so do rules that are nested beyond a limit and repetitions that go on for
longer than there are tokens.

A parser is never in that danger, since its type tells where the first end mark
is.  The two are brought together by `Parser.reader`, which forgets that.

Each operation that does not read an expression does to the index what the parser
does, and never halts (`Descent.peek_reader` to `Descent.synchronize_reader`).
-/

namespace LoxCalc

/-- An index into a list of tokens, with the problems recorded so far. -/
structure Reader where
  tokens : List Token
  index : Nat
  errors : List Diagnostic

/-- Why a reader halts. -/
inductive Halt
  /-- There is no token at the index. -/
  | outOfRange
  /-- The rules are nested too deeply. -/
  | tooDeep
  /-- A repetition does not end. -/
  | endless

/-- What a reader does: it gives an answer or halts, and in both cases the reader is left
somewhere. -/
abbrev Descent (α : Type) : Type :=
  EStateM Halt Reader α

namespace Descent

/-- The token that was looked up, if there is one. -/
def found : Option Token → Descent Token
  | some t => pure t
  | none => throw .outOfRange

/-- The token at the index. -/
def peek : Descent Token := do
  let r ← get
  found r.tokens[r.index]?

/-- The token before the index; the one before the first is the last. -/
def previous : Descent Token := do
  let r ← get
  found (if r.index = 0 then r.tokens.getLast? else r.tokens[r.index - 1]?)

/-- Is there an end mark at the index? -/
def atEnd : Descent Bool := do
  let t ← peek
  return t.isEnd

/-- Moves past a token that is no end mark, and gives the token before the index. -/
def advance : Descent Token := do
  if ← atEnd then previous
  else
    modify fun r => { r with index := r.index + 1 }
    previous

/-- Is the token at the index of this kind?  An end mark is of no kind. -/
def check (kind : Kind) : Descent Bool := do
  if ← atEnd then return false
  else
    let t ← peek
    return t.kind == kind

/-- Moves past a token of one of these kinds. -/
def accept : List Kind → Descent Bool
  | [] => return false
  | kind :: kinds => do
    if ← check kind then
      let _ ← advance
      return true
    else accept kinds

/-- Records a problem with a token. -/
def complain (t : Token) (message : String) : Descent Unit :=
  modify fun r => { r with errors := r.errors ++ [.about t message] }

/-- Moves past a token of the given kind, or records a problem with it. -/
def expect (kind : Kind) (message : String) : Descent Kind := do
  if ← check kind then
    let t ← advance
    return t.kind
  else
    let t ← peek
    complain t message
    return .error

/-- Moves on while there is no boundary, but not more than `n` times. -/
def skip : Nat → Descent Unit
  | 0 => throw .endless
  | n + 1 => do
    if ← atEnd then return
    else
      let last ← previous
      if last.kind = .symbol .semicolon then return
      else
        let next ← peek
        if next.kind.startsStatement then return
        else
          let _ ← advance
          skip n

/-- Moves past a token, and on to the next place where a statement may begin. -/
def synchronize : Descent Unit := do
  let _ ← advance
  let r ← get
  skip (r.tokens.length + 1)

/-- Goes on with operators of these kinds and their right operands, but with not more than `n` of
them. -/
def chain (operand : Descent Expr) (kinds : List Kind) : Nat → Expr → Descent Expr
  | 0, _ => throw .endless
  | n + 1, left => do
    if ← accept kinds then
      let op ← previous
      let right ← operand
      chain operand kinds n (.binary left op right)
    else return left

/-- Reads operands with operators of these kinds between them, which associate to the left. -/
def leftAssoc (operand : Descent Expr) (kinds : List Kind) : Descent Expr := do
  let first ← operand
  let r ← get
  chain operand kinds (r.tokens.length + 1) first

/-- Reads by a rule of the grammar, with rules nested up to a limit. -/
def rule : Nat → Rule → Descent Expr
  | 0, _ => throw .tooDeep
  | n + 1, .expression => rule n .equality
  | n + 1, .equality => leftAssoc (rule n .comparison) Level.equality.operators
  | n + 1, .comparison => leftAssoc (rule n .term) Level.comparison.operators
  | n + 1, .term => leftAssoc (rule n .factor) Level.term.operators
  | n + 1, .factor => leftAssoc (rule n .unary) Level.factor.operators
  | n + 1, .unary => do
    if ← accept unaryOperators then
      let op ← previous
      let right ← rule n .unary
      return .unary op right
    else rule n .primary
  | n + 1, .primary => do
    if ← accept literalKinds then
      let t ← previous
      return .literal t.kind t.literal
    else if ← accept [.symbol .leftParen] then
      let e ← rule n .expression
      let _ ← expect (.symbol .rightParen) "Expect ')' after expression."
      return .grouping e
    else
      let t ← peek
      complain t "Expect expression."
      return .missing

/-- Reads a whole expression. -/
def parse (n : Nat) : Descent (Option Expr) := do
  let e ← rule n .expression
  let ended ← atEnd
  let r ← get
  if r.errors.isEmpty && !ended then
    let t ← peek
    complain t "Expect end of expression."
  let r ← get
  return if r.errors.isEmpty then some e else none

end Descent

/-! ## A parser as a reader -/

namespace Parser

/-- The index and the tokens of a parser, as if nothing were known about them. -/
def reader (p : Parser) : Reader :=
  ⟨p.tokens, p.position, p.errors⟩

/-- The token before the index is the one passed last. -/
theorem getElem?_previous (p : Parser) :
    (if p.position = 0 then p.tokens.getLast? else p.tokens[p.position - 1]?)
      = some p.previous := by
  unfold tokens position previous
  cases hbefore : p.before with
  | nil =>
      rw [List.getLast?_append, List.getLast?_cons]
      simp
  | cons t before => simp

/-- There is an end mark at the index exactly at the end. -/
theorem isEnd_peek (p : Parser) : p.peek.isEnd = p.atEnd := by
  unfold peek atEnd
  cases hahead : p.ahead with
  | nil => exact p.stop_isEnd
  | cons t ahead => exact p.ahead_not_end t (hahead ▸ List.mem_cons_self)

/-- An end mark is no operator. -/
theorem isUnary_peek (p : Parser) : p.peek.isUnary = p.ahead.head?.any Token.isUnary := by
  unfold peek
  cases p.ahead with
  | nil => simp [Token.isUnary, beq_iff_eq.mp p.stop_isEnd]
  | cons t ahead => rfl

/-- A parser at the end does not move. -/
theorem move_of_ahead_eq_nil {p : Parser} (h : p.ahead = []) (n : Nat) : p.move n = p := by
  obtain ⟨before, ahead, stop, beyond, errors, hahead, hstop⟩ := p
  simp only at h
  subst h
  simp [move]

/-- The number of tokens passed in a move. -/
theorem position_move (p : Parser) (n : Nat) :
    (p.move n).position = p.position + min n p.ahead.length := by
  simp [position, move, Nat.add_comm]

/-- Two moves are one. -/
theorem move_move (p : Parser) (m n : Nat) : (p.move m).move n = p.move (m + n) := by
  simp [move, List.take_add, List.drop_drop]

/-- At least one token is passed on the way to a boundary. -/
theorem toBoundary_pos (t : Token) (ts : List Token) : 0 < toBoundary (t :: ts) := by
  cases ts with
  | nil => exact Nat.one_pos
  | cons u ts =>
      rw [toBoundary]
      split <;> omega

/-- A token that is no end mark is ahead. -/
theorem exists_ahead_eq (p : Parser) (h : p.peek.kind ≠ .eof) :
    ∃ ahead, p.ahead = p.peek :: ahead := by
  cases hahead : p.ahead with
  | nil =>
      rw [peek, hahead] at h
      exact absurd (beq_iff_eq.mp p.stop_isEnd) h
  | cons t ahead => exact ⟨ahead, by rw [peek, hahead]; rfl⟩

/-- Looking for a kind is looking at the next token. -/
theorem check_iff (p : Parser) {kind : Kind} (h : kind ≠ .eof) :
    p.check kind = true ↔ p.peek.kind = kind := by
  unfold check peek
  cases p.ahead with
  | nil => simpa [beq_iff_eq.mp p.stop_isEnd] using h.symm
  | cons t ahead => simp

section Next

variable {p : Parser} {t : Token} {ahead : List Token} (h : p.ahead = t :: ahead)
include h

theorem peek_of_ahead_eq : p.peek = t := by
  rw [peek, h]
  rfl

/-- After a move past a token that token is the previous one. -/
theorem previous_move_one : (p.move 1).previous = t := by
  simp [previous, move, h]

theorem ahead_move_one : (p.move 1).ahead = ahead := by
  simp [move, h]

end Next

/-- The parser after the next `n` tokens, with more problems recorded. -/
def pass (p : Parser) (n : Nat) (ds : List Diagnostic) : Parser :=
  { p.move n with errors := p.errors ++ ds }

@[simp] theorem ahead_pass (p : Parser) (n : Nat) (ds : List Diagnostic) :
    (p.pass n ds).ahead = p.ahead.drop n :=
  rfl

@[simp] theorem stop_pass (p : Parser) (n : Nat) (ds : List Diagnostic) :
    (p.pass n ds).stop = p.stop :=
  rfl

@[simp] theorem tokens_pass (p : Parser) (n : Nat) (ds : List Diagnostic) :
    (p.pass n ds).tokens = p.tokens :=
  p.tokens_move n

@[simp] theorem position_pass (p : Parser) (n : Nat) (ds : List Diagnostic) :
    (p.pass n ds).position = p.position + min n p.ahead.length :=
  p.position_move n

theorem previous_pass_one {p : Parser} {t : Token} {ahead : List Token}
    (h : p.ahead = t :: ahead) : (p.pass 1 []).previous = t :=
  previous_move_one h

theorem ahead_pass_one {p : Parser} {t : Token} {ahead : List Token} (h : p.ahead = t :: ahead)
    (ds : List Diagnostic) : (p.pass 1 ds).ahead = ahead :=
  ahead_move_one h

theorem pass_zero_nil (p : Parser) : p.pass 0 [] = p := by
  simp [pass, move]

theorem move_eq_pass (p : Parser) (n : Nat) : p.move n = p.pass n [] := by
  simp [pass, move]

theorem complain_eq_pass (p : Parser) (t : Token) (message : String) :
    p.complain t message = p.pass 0 [.about t message] := by
  simp [pass, move, complain]

/-- The parser after a reading whose outcome is known. -/
theorem readBy_of_read {p : Parser} {r : Rule} {e : Expr} {k : Nat} {ds : List Diagnostic}
    (h : read r p.ahead p.stop = ⟨e, ds, p.ahead.drop k⟩) : p.readBy r = (e, p.pass k ds) := by
  have hmove : p.move (p.ahead.length - (p.ahead.drop k).length) = p.move k := by
    rcases Nat.le_total k p.ahead.length with hle | hle
    · rw [List.length_drop, Nat.sub_sub_self hle]
    · simp [move, List.drop_eq_nil_of_le hle, List.take_of_length_le hle]
  rw [readBy, h, hmove]
  rfl

/-- Passing tokens in two moves. -/
theorem pass_pass (p : Parser) (m n : Nat) (ds es : List Diagnostic) :
    (p.pass m ds).pass n es = p.pass (m + n) (ds ++ es) := by
  simp [pass, move, List.take_add, List.drop_drop]

end Parser

namespace Descent

variable (p : Parser)

@[simp] theorem peek_reader : peek.run p.reader = .ok p.peek p.reader := by
  have h : p.reader.tokens[p.reader.index]? = some p.peek := p.getElem?_position
  simp [peek, h, found]

@[simp] theorem previous_reader : previous.run p.reader = .ok p.previous p.reader := by
  have h := p.getElem?_previous
  simp [previous, Parser.reader, h, found]

@[simp] theorem atEnd_reader : atEnd.run p.reader = .ok p.atEnd p.reader := by
  simp only [atEnd, EStateM.run_bind, peek_reader, EStateM.run_pure, Parser.isEnd_peek]

@[simp] theorem advance_reader :
    advance.run p.reader = .ok p.advance.1 p.advance.2.reader := by
  simp only [advance, EStateM.run_bind, atEnd_reader, Parser.advance]
  by_cases hend : p.atEnd = true
  · rw [if_pos hend, Parser.move_of_ahead_eq_nil (by simpa [Parser.atEnd] using hend),
      previous_reader]
  · have hpos : 0 < p.ahead.length := by
      simpa [Parser.atEnd, List.length_pos_iff] using hend
    have hmove : { p.reader with index := p.reader.index + 1 } = (p.move 1).reader := by
      rw [Parser.reader, Parser.reader, Parser.tokens_move, Parser.position_move,
        Nat.min_eq_left hpos]
      rfl
    rw [if_neg hend, EStateM.run_bind, EStateM.run_modify, hmove]
    exact previous_reader (p.move 1)

@[simp] theorem check_reader (kind : Kind) :
    (check kind).run p.reader = .ok (p.check kind) p.reader := by
  simp only [check, EStateM.run_bind, atEnd_reader, Parser.atEnd, Parser.check]
  cases hahead : p.ahead with
  | nil => rfl
  | cons t ahead =>
      simp only [List.isEmpty_cons, Bool.false_eq_true, if_false, EStateM.run_bind, peek_reader,
        Parser.peek_of_ahead_eq hahead]
      rfl

@[simp] theorem accept_reader (kinds : List Kind) :
    (accept kinds).run p.reader = .ok (p.accept kinds).1 (p.accept kinds).2.reader := by
  induction kinds with
  | nil => rfl
  | cons kind kinds ih =>
      simp only [accept, EStateM.run_bind, check_reader]
      by_cases hkind : p.check kind = true
      · simp only [hkind, if_true, EStateM.run_bind, advance_reader, Parser.accept, List.any_cons,
          Bool.true_or]
        rfl
      · simpa [hkind, Parser.accept] using ih

@[simp] theorem complain_reader (t : Token) (message : String) :
    (complain t message).run p.reader = .ok () (p.complain t message).reader :=
  rfl

@[simp] theorem expect_reader (kind : Kind) (message : String) :
    (expect kind message).run p.reader
      = .ok (p.expect kind message).1 (p.expect kind message).2.reader := by
  simp only [expect, EStateM.run_bind, check_reader, Parser.expect]
  by_cases hkind : p.check kind = true
  · have hprevious : (p.move 1).previous = p.peek := by
      cases hahead : p.ahead with
      | nil => simp [Parser.check, hahead] at hkind
      | cons t ahead => rw [Parser.previous_move_one hahead, Parser.peek_of_ahead_eq hahead]
    simp only [hkind, if_true, EStateM.run_bind, advance_reader, EStateM.run_pure, Parser.advance,
      hprevious]
  · simp only [hkind, Bool.false_eq_true, if_false, EStateM.run_bind, peek_reader, complain_reader]
    rfl

/-- Skipping ends at the first boundary, and before the tokens do. -/
theorem skip_reader {n : Nat} (hn : p.ahead.length < n) :
    (skip n).run p.reader
      = .ok () (p.move (Parser.toBoundary (p.previous :: p.ahead) - 1)).reader := by
  induction n generalizing p with
  | zero => omega
  | succ n ih =>
      simp only [skip, EStateM.run_bind, atEnd_reader, Parser.atEnd]
      cases hahead : p.ahead with
      | nil =>
          rw [Parser.move_of_ahead_eq_nil hahead]
          rfl
      | cons t ahead =>
          have hpeek := Parser.peek_of_ahead_eq hahead
          have hstay : p.move 0 = p := by simp [Parser.move]
          simp only [List.isEmpty_cons, Bool.false_eq_true, if_false, EStateM.run_bind,
            previous_reader, Parser.toBoundary]
          by_cases hlast : p.previous.kind = .symbol .semicolon
          · simp [hlast, hstay]
          simp only [hlast, if_false, EStateM.run_bind, peek_reader, hpeek, false_or]
          by_cases hnext : t.kind.startsStatement = true
          · simp [hnext, hstay]
          -- no boundary here, so the token is passed and becomes the previous one
          have hpositive := Parser.toBoundary_pos t ahead
          have hcount : 1 + (Parser.toBoundary (t :: ahead) - 1)
              = Parser.toBoundary (t :: ahead) + 1 - 1 := by omega
          have hmoved := ih (p.move 1) (by
            rw [Parser.ahead_move_one hahead]
            simp only [hahead, List.length_cons] at hn
            omega)
          rw [Parser.previous_move_one hahead, Parser.ahead_move_one hahead, Parser.move_move,
            hcount] at hmoved
          simpa only [hnext, Bool.false_eq_true, if_false, EStateM.run_bind, advance_reader,
            Parser.advance] using hmoved

@[simp] theorem synchronize_reader :
    synchronize.run p.reader = .ok () p.synchronize.reader := by
  have hlength : (p.move 1).ahead.length < (p.move 1).reader.tokens.length + 1 := by
    simp only [Parser.reader, Parser.tokens, List.length_append, List.length_cons]
    omega
  simp only [synchronize, EStateM.run_bind, advance_reader, Parser.advance, EStateM.run_get,
    skip_reader _ hlength, Parser.synchronize]
  cases hahead : p.ahead with
  | nil =>
      have hmoved : (p.move 1).ahead = [] := by simp [Parser.move, hahead]
      rw [Parser.move_of_ahead_eq_nil hmoved, Parser.move_of_ahead_eq_nil hahead,
        Parser.move_of_ahead_eq_nil hahead]
  | cons t ahead =>
      have hpositive := Parser.toBoundary_pos t ahead
      have hcount : 1 + (Parser.toBoundary (t :: ahead) - 1) = Parser.toBoundary (t :: ahead) := by
        omega
      rw [Parser.previous_move_one hahead, Parser.ahead_move_one hahead, Parser.move_move, hcount]

end Descent

end LoxCalc
