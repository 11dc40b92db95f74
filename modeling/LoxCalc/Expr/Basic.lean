import LoxCalc.Token.Basic

/-!
# Expressions

The tree of a Lox expression.  Operators are kept as whole tokens, so that a problem found later
can be told with the place of its operator.
-/

namespace LoxCalc

/-- An expression. -/
inductive Expr
  /-- A literal with its kind and, for a number or a string, its text. -/
  | literal (kind : Kind) (text : Option String)
  /-- An expression in parentheses. -/
  | grouping (inner : Expr)
  | unary (op : Token) (right : Expr)
  | binary (left : Expr) (op : Token) (right : Expr)
  deriving DecidableEq

namespace Expr

/-- The placeholder for an expression that is missing. -/
def missing : Expr :=
  .literal .error none

instance : Inhabited Expr := ⟨missing⟩

/-- The number of levels of a tree. -/
def height : Expr → Nat
  | literal _ _ => 1
  | grouping e => e.height + 1
  | unary _ e => e.height + 1
  | binary l _ r => max l.height r.height + 1

section Height

variable {n : Nat} {l e r : Expr} {op : Token}

/-- A tree has a level at least. -/
theorem not_height_le_zero (e : Expr) : ¬e.height ≤ 0 := by
  cases e <;> exact Nat.not_succ_le_zero _

theorem height_grouping_le_iff : (grouping e).height ≤ n + 1 ↔ e.height ≤ n :=
  Nat.add_le_add_iff_right

theorem height_unary_le_iff : (unary op e).height ≤ n + 1 ↔ e.height ≤ n :=
  Nat.add_le_add_iff_right

theorem height_binary_le_iff :
    (binary l op r).height ≤ n + 1 ↔ l.height ≤ n ∧ r.height ≤ n := by
  rw [height, Nat.add_le_add_iff_right, Nat.max_le]

end Height

end Expr

end LoxCalc
