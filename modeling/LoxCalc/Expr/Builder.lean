import LoxCalc.Diagnostic
import LoxCalc.Expr.Basic
import LoxCalc.Token.Operator

/-!
# Building an expression from tokens

An expression is built token by token.  The builder keeps a stack of what is still unfinished (open
groupings, operators that wait for their right operand) and the operand read last, if the next
token does not have to start one.

A token is either **taken**, which changes the stack, or **refused**, which means that the
expression ends before it.  Where an operand is missing a placeholder takes its place and a
diagnostic is recorded against the next token, which is then looked at again; where the expression
ends with groupings still open, each of them costs a diagnostic against the token that ended it.
No token is looked at further ahead than the next one.

* `Builder.step` takes one token or refuses it;
* `Builder.run` takes tokens up to the first refusal;
* `Builder.finish` closes what is unfinished;
* `read` puts the three together for any rule of the grammar.
-/

namespace LoxCalc

/-- Something begun and not yet finished. -/
inductive Frame
  /-- A grouping whose closing parenthesis is outstanding. -/
  | group
  /-- An operator before the operand that is outstanding. -/
  | unary (op : Token)
  /-- A left operand and its operator, with the right operand outstanding. -/
  | binary (left : Expr) (op : Token) (level : Level)

/-- An expression under construction: what is unfinished, innermost first; the operand read last;
the problems met so far. -/
structure Builder where
  stack : List Frame := []
  operand : Option Expr := none
  errors : List Diagnostic := []

namespace Builder

/-- Finishes the operators on top of the stack that bind at least as tightly as `rank`; a unary
operator binds tighter than any binary one. -/
def reduce (rank : Nat) : Expr → List Frame → Expr × List Frame
  | e, .unary op :: stack => reduce rank (.unary op e) stack
  | e, .binary left op level :: stack =>
    if rank ≤ level.rank then reduce rank (.binary left op e) stack
    else (e, .binary left op level :: stack)
  | e, stack => (e, stack)

/-- Takes a token where an operand has to start. -/
def start? (b : Builder) (t : Token) : Option Builder :=
  if t.isLiteral then some { b with operand := some (.literal t.kind t.literal) }
  else if t.isOpening then some { b with stack := .group :: b.stack }
  else if t.isUnary then some { b with stack := .unary t :: b.stack }
  else none

/-- Takes a token after the operand `e`: a binary operator of at least the rank `floor`, of any rank
inside a grouping, or the parenthesis that closes the innermost grouping. -/
def extend? (floor : Nat) (b : Builder) (e : Expr) (t : Token) : Option Builder :=
  match t.level? with
  | some level =>
    let (left, stack) := reduce level.rank e b.stack
    if stack.isEmpty ∧ level.rank < floor then none
    else some { b with stack := .binary left t level :: stack, operand := none }
  | none =>
    if t.isClosing then
      match reduce 0 e b.stack with
      | (inner, .group :: stack) => some { b with stack, operand := some (.grouping inner) }
      | _ => none
    else none

/-- Records a problem. -/
def complain (b : Builder) (t : Token) (message : String) : Builder :=
  { b with errors := b.errors ++ [.about t message] }

/-- Takes a token, or refuses it. -/
def step (floor : Nat) (b : Builder) (t : Token) : Option Builder :=
  match b.operand with
  | some e => b.extend? floor e t
  | none =>
    match b.start? t with
    | some b' => some b'
    | none => (b.complain t "Expect expression.").extend? floor .missing t

/-- Takes tokens up to the first one that is refused. -/
def run (floor : Nat) : Builder → List Token → Builder × List Token
  | b, [] => (b, [])
  | b, t :: ts =>
    match b.step floor t with
    | some b' => run floor b' ts
    | none => (b, t :: ts)

/-- Finishes everything on the stack, `next` being the token that ended the expression. -/
def close (next : Token) : Expr → List Diagnostic → List Frame → Expr × List Diagnostic
  | e, errors, [] => (e, errors)
  | e, errors, .group :: stack =>
    close next (.grouping e) (errors ++ [.about next "Expect ')' after expression."]) stack
  | e, errors, .unary op :: stack => close next (.unary op e) errors stack
  | e, errors, .binary left op _ :: stack => close next (.binary left op e) errors stack

/-- The finished expression and the problems met. -/
def finish (b : Builder) (next : Token) : Expr × List Diagnostic :=
  match b.operand with
  | some e => close next e b.errors b.stack
  | none => close next .missing (b.complain next "Expect expression.").errors b.stack

end Builder

/-- The rules of the grammar. -/
inductive Rule
  | expression
  | equality
  | comparison
  | term
  | factor
  | unary
  | primary
  deriving DecidableEq

/-- The least rank of a binary operator that a rule takes outside groupings. -/
def Rule.floor : Rule → Nat
  | expression | equality => 0
  | comparison => 1
  | term => 2
  | factor => 3
  | unary | primary => 4

/-- The outcome of reading an expression. -/
structure Reading where
  expr : Expr
  errors : List Diagnostic
  /-- The tokens that were not taken. -/
  rest : List Token

/-- Reads an expression by a rule from tokens that are followed by the end mark `stop`.  A primary
expression does not start with an operator; every other rule takes one. -/
def read (rule : Rule) (ts : List Token) (stop : Token) : Reading :=
  if rule = .primary ∧ ts.head?.any Token.isUnary then
    ⟨.missing, (Builder.complain {} (ts.headD stop) "Expect expression.").errors, ts⟩
  else
    let (b, rest) := Builder.run rule.floor {} ts
    let (expr, errors) := b.finish (rest.headD stop)
    ⟨expr, errors, rest⟩

end LoxCalc
