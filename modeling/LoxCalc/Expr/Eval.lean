import LoxCalc.Expr.Echo
import LoxCalc.Value

/-!
# Evaluation

The value of a tree, operands before operators and left before right.  The first operator whose
operands have the wrong types ends the evaluation with a complaint about that operator.  Arithmetic
is that of binary64; division by zero gives an infinity or a NaN and is never an error.
-/

namespace LoxCalc

open Binary64

/-- The quotient.  A zero divisor gives an infinity with the sign of the dividend, times a one with
the sign of the divisor, unless the dividend is zero or not a number. -/
def divide (x y : Float) : Float :=
  if magnitude y ≠ 0 then x / y
  else if magnitude x = 0 ∨ infinityBits < magnitude x then ofMagnitude false nanBits
  else copySign (ofMagnitude false infinityBits) x * copySign 1.0 y

namespace Expr

/-- The value of a literal. -/
def evalLiteral (kind : Kind) (text : Option String) : Except Fault Value :=
  match kind with
  | .number => ((numberOfText text).map Value.number).mapError .defect
  | .string => .ok (.string text)
  | .keyword .trueWord => .ok (.bool true)
  | .keyword .falseWord => .ok (.bool false)
  | .keyword .nilWord => .ok .nil
  | _ => .error (.defect (.valuelessLiteral kind))

/-- Applies a unary operator. -/
def applyUnary (op : Token) (v : Value) : Except Fault Value :=
  match op.kind with
  | .symbol .minus => (v.asNumber op).map fun x => .number (-x)
  | .symbol .bang => (v.asBool op).map fun b => .bool (!b)
  | _ => .error (.defect (.unknownUnary op.lexeme))

/-- Applies an arithmetic operation to numbers. -/
def arithmetic (f : Float → Float → Float) (op : Token) (a b : Value) : Except Fault Value :=
  (Value.asNumbers op a b).map fun (x, y) => .number (f x y)

/-- Applies a comparison to numbers. -/
def comparison (f : Float → Float → Bool) (op : Token) (a b : Value) : Except Fault Value :=
  (Value.asNumbers op a b).map fun (x, y) => .bool (f x y)

/-- Joins two strings, both of which need a text. -/
def join : Option String → Option String → Except Defect String
  | some s, some t => .ok (s ++ t)
  | some _, none => .error .textlessRight
  | none, t => .error (.textlessLeft t.isSome)

/-- Adds numbers or joins strings. -/
def sum (op : Token) : Value → Value → Except Fault Value
  | .number x, .number y => .ok (.number (x + y))
  | .string s, .string t => ((join s t).map fun r => .string (some r)).mapError .defect
  | _, _ => .error (Value.typeError op "Mismatched types")

/-- Applies a binary operator. -/
def applyBinary (op : Token) (a b : Value) : Except Fault Value :=
  match op.kind with
  | .symbol .minus => arithmetic (· - ·) op a b
  | .symbol .star => arithmetic (· * ·) op a b
  | .symbol .slash => arithmetic divide op a b
  | .symbol .plus => sum op a b
  | .symbol .greater => comparison (fun x y => y < x) op a b
  | .symbol .greaterEqual => comparison (fun x y => y ≤ x) op a b
  | .symbol .less => comparison (fun x y => x < y) op a b
  | .symbol .lessEqual => comparison (fun x y => x ≤ y) op a b
  | .symbol .equalEqual => .ok (.bool (a.isEqual b))
  | .symbol .bangEqual => .ok (.bool (!a.isEqual b))
  | _ => .error (.defect (.unknownBinary op.lexeme))

/-- The value of a tree. -/
def eval : Expr → Except Fault Value
  | literal kind text => evalLiteral kind text
  | grouping e => e.eval
  | unary op e => do
    let v ← e.eval
    applyUnary op v
  | binary l op r => do
    let a ← l.eval
    let b ← r.eval
    applyBinary op a b

/-- The value of a tree by a walk that goes down through `n` levels at most. -/
def evalWithin : Nat → Expr → Except Fault Value
  | 0, _ => .error .tooDeep
  | _ + 1, literal kind text => evalLiteral kind text
  | n + 1, grouping e => e.evalWithin n
  | n + 1, unary op e => do
    let v ← e.evalWithin n
    applyUnary op v
  | n + 1, binary l op r => do
    let a ← l.evalWithin n
    let b ← r.evalWithin n
    applyBinary op a b

/-- The value of a tree, unless a fault or too deep a place is reached first. -/
def eval? (e : Expr) : Except Fault Value :=
  e.evalWithin (levels 3)

/-- With room for the whole height the limit is not noticed. -/
theorem evalWithin_of_height_le {n : Nat} {e : Expr} (h : e.height ≤ n) :
    e.evalWithin n = e.eval := by
  induction n generalizing e with
  | zero => exact absurd h e.not_height_le_zero
  | succ n ih =>
    cases e with
    | literal kind text => rfl
    | grouping e => rw [evalWithin, eval, ih (height_grouping_le_iff.mp h)]
    | unary op e => rw [evalWithin, eval, ih (height_unary_le_iff.mp h)]
    | binary l op r =>
      obtain ⟨hl, hr⟩ := height_binary_le_iff.mp h
      rw [evalWithin, eval, ih hl, ih hr]

/-- A limited evaluation ends like an unlimited one, or at a place that is too deep. -/
theorem evalWithin_eq_or (n : Nat) (e : Expr) :
    e.evalWithin n = .error .tooDeep ∨ e.evalWithin n = e.eval := by
  induction e generalizing n with
  | literal kind text => cases n <;> simp [evalWithin, eval]
  | grouping e ih =>
    cases n with
    | zero => exact .inl rfl
    | succ n => simpa only [evalWithin, eval] using ih n
  | unary op e ih =>
    cases n with
    | zero => exact .inl rfl
    | succ n =>
      rw [evalWithin, eval]
      rcases ih n with h | h <;> rw [h]
      · exact .inl rfl
      · exact .inr rfl
  | binary l op r ihl ihr =>
    cases n with
    | zero => exact .inl rfl
    | succ n =>
      rw [evalWithin, eval]
      rcases ihl n with hl | hl <;> rw [hl]
      · exact .inl rfl
      · cases l.eval with
        | error f => exact .inr rfl
        | ok a =>
          rcases ihr n with hr | hr <;> rw [hr]
          · exact .inl rfl
          · exact .inr rfl

end Expr

end LoxCalc
