import LoxCalc.Expr.Depth
import LoxCalc.Number.Numeral
import LoxCalc.Number.Print

/-!
# The echo

A tree on one line, in prefix form with every operator and grouping in parentheses.  Numbers are
shown by their value and strings between quotes, so that `1` and `"1"` differ.
-/

namespace LoxCalc

/-- The number that the text of a literal denotes. -/
def numberOfText : Option String → Except Defect Float
  | none => .error .missingNumeral
  | some s =>
    match Numeral.read? s with
    | some x => .ok x
    | none => .error (.badNumeral s)

namespace Expr

/-- The echo of a literal; a string that has no text is shown as `None`. -/
def echoLiteral (kind : Kind) (text : Option String) : Except Defect String :=
  match kind with
  | .number => (numberOfText text).map Number.text
  | .string => .ok ("\"" ++ text.getD "None" ++ "\"")
  | .error => .ok "<error>"
  | _ => .ok kind.text

/-- The echo of a tree. -/
def echo : Expr → Except Defect String
  | literal kind text => echoLiteral kind text
  | grouping e => do
    let inner ← e.echo
    return "(group " ++ inner ++ ")"
  | unary op e => do
    let right ← e.echo
    return "(" ++ op.lexeme ++ " " ++ right ++ ")"
  | binary l op r => do
    let left ← l.echo
    let right ← r.echo
    return "(" ++ op.lexeme ++ " " ++ left ++ " " ++ right ++ ")"

/-- The echo of a tree by a walk that goes down through `n` levels at most. -/
def echoWithin : Nat → Expr → Except Fault String
  | 0, _ => .error .tooDeep
  | _ + 1, literal kind text => (echoLiteral kind text).mapError .defect
  | n + 1, grouping e => do
    let inner ← e.echoWithin n
    return "(group " ++ inner ++ ")"
  | n + 1, unary op e => do
    let right ← e.echoWithin n
    return "(" ++ op.lexeme ++ " " ++ right ++ ")"
  | n + 1, binary l op r => do
    let left ← l.echoWithin n
    let right ← r.echoWithin n
    return "(" ++ op.lexeme ++ " " ++ left ++ " " ++ right ++ ")"

/-- The echo of a tree, unless a defect or too deep a place is reached first. -/
def echo? (e : Expr) : Except Fault String :=
  e.echoWithin (levels 4)

/-- With room for the whole height the limit is not noticed. -/
theorem echoWithin_of_height_le {n : Nat} {e : Expr} (h : e.height ≤ n) :
    e.echoWithin n = e.echo.mapError .defect := by
  induction n generalizing e with
  | zero => exact absurd h e.not_height_le_zero
  | succ n ih =>
    cases e with
    | literal kind text => rfl
    | grouping e =>
      rw [echoWithin, echo, ih (height_grouping_le_iff.mp h)]
      cases e.echo <;> rfl
    | unary op e =>
      rw [echoWithin, echo, ih (height_unary_le_iff.mp h)]
      cases e.echo <;> rfl
    | binary l op r =>
      obtain ⟨hl, hr⟩ := height_binary_le_iff.mp h
      rw [echoWithin, echo, ih hl, ih hr]
      cases l.echo <;> cases r.echo <;> rfl

/-- A limited walk ends like an unlimited one, or at a place that is too deep. -/
theorem echoWithin_eq_or (n : Nat) (e : Expr) :
    e.echoWithin n = .error .tooDeep ∨ e.echoWithin n = e.echo.mapError .defect := by
  induction e generalizing n with
  | literal kind text => cases n <;> simp [echoWithin, echo]
  | grouping e ih =>
    cases n with
    | zero => exact .inl rfl
    | succ n =>
      rw [echoWithin, echo]
      rcases ih n with h | h <;> rw [h]
      · exact .inl rfl
      · cases e.echo <;> exact .inr rfl
  | unary op e ih =>
    cases n with
    | zero => exact .inl rfl
    | succ n =>
      rw [echoWithin, echo]
      rcases ih n with h | h <;> rw [h]
      · exact .inl rfl
      · cases e.echo <;> exact .inr rfl
  | binary l op r ihl ihr =>
    cases n with
    | zero => exact .inl rfl
    | succ n =>
      rw [echoWithin, echo]
      rcases ihl n with hl | hl <;> rw [hl]
      · exact .inl rfl
      · cases l.echo with
        | error d => exact .inr rfl
        | ok left =>
          rcases ihr n with hr | hr <;> rw [hr]
          · exact .inl rfl
          · cases r.echo <;> exact .inr rfl

end Expr

end LoxCalc
