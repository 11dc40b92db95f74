import LoxCalc.Token.Basic

/-!
# Operators

Binary operators bind at one of four levels, from equality, the loosest, to factors, the tightest.
Two symbols may stand before an operand: the minus, which is also a binary operator, and the bang.
-/

namespace LoxCalc

/-- The levels at which binary operators bind, loosest first. -/
inductive Level
  | equality
  | comparison
  | term
  | factor
  deriving DecidableEq

/-- How tightly a level binds. -/
def Level.rank : Level → Nat
  | equality => 0
  | comparison => 1
  | term => 2
  | factor => 3

/-- The level of a symbol as a binary operator. -/
def Symbol.level? : Symbol → Option Level
  | bangEqual | equalEqual => some .equality
  | greater | greaterEqual | less | lessEqual => some .comparison
  | minus | plus => some .term
  | slash | star => some .factor
  | _ => none

namespace Token

/-- The level of a token as a binary operator. -/
def level? (t : Token) : Option Level :=
  match t.kind with
  | .symbol s => s.level?
  | _ => none

/-- May the token stand before an operand as its operator? -/
def isUnary (t : Token) : Bool :=
  t.kind == .symbol .bang || t.kind == .symbol .minus

/-- Is the token an expression by itself? -/
def isLiteral (t : Token) : Bool :=
  match t.kind with
  | .number | .string => true
  | .keyword .falseWord | .keyword .trueWord | .keyword .nilWord => true
  | _ => false

/-- Does the token open a grouping? -/
def isOpening (t : Token) : Bool :=
  t.kind == .symbol .leftParen

/-- Does the token close a grouping? -/
def isClosing (t : Token) : Bool :=
  t.kind == .symbol .rightParen

end Token

end LoxCalc
