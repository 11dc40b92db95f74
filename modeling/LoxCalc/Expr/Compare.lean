import LoxCalc.Expr.Depth

/-!
# Comparing trees

Two trees are compared field by field from the left, operators as whole tokens.  The comparison goes
down only as long as the trees agree, so that two deep trees that differ early can be told apart.
-/

namespace LoxCalc.Expr

/-- Are two trees the same?  The comparison goes down through `n` levels at most. -/
def agreeWithin : Nat → Expr → Expr → Except Fault Bool
  | 0, _, _ => .error .tooDeep
  | _ + 1, literal kind text, literal kind' text' => .ok (kind == kind' && text == text')
  | n + 1, grouping e, grouping e' => agreeWithin n e e'
  | n + 1, unary op e, unary op' e' => if op = op' then agreeWithin n e e' else .ok false
  | n + 1, binary l op r, binary l' op' r' => do
    let left ← agreeWithin n l l'
    if left && op = op' then agreeWithin n r r' else return false
  | _ + 1, _, _ => .ok false

/-- Are two trees the same, unless too deep a place is reached first? -/
def agree? (e e' : Expr) : Except Fault Bool :=
  agreeWithin (levels 3) e e'

/-- Within the height of one of them, trees agree if and only if they are equal. -/
theorem agreeWithin_of_height_le {n : Nat} {e e' : Expr} (h : e.height ≤ n) :
    agreeWithin n e e' = .ok (decide (e = e')) := by
  induction n generalizing e e' with
  | zero => exact absurd h e.not_height_le_zero
  | succ n ih =>
    cases e with
    | literal kind text => cases e' <;> simp [agreeWithin, Bool.beq_eq_decide_eq]
    | grouping e => cases e' <;> simp [agreeWithin, ih (height_grouping_le_iff.mp h)]
    | unary op e =>
      cases e' with
      | unary op' e' =>
        by_cases hop : op = op' <;> simp [agreeWithin, ih (height_unary_le_iff.mp h), hop]
      | _ => simp [agreeWithin]
    | binary l op r =>
      obtain ⟨hl, hr⟩ := height_binary_le_iff.mp h
      cases e' with
      | binary l' op' r' =>
        simp only [agreeWithin, ih hl, ih hr, bind, Except.bind, pure, Except.pure]
        by_cases hleft : l = l' <;> by_cases hop : op = op' <;> simp [hleft, hop]
      | _ => simp [agreeWithin]

end LoxCalc.Expr
