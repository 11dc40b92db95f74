import LoxCalc.Expr.Eval

/-!
# Type errors are decided by shape

Take two trees of the same shape: the same nodes, the same operators, literals
of the same kinds.  What stands in their literals may differ, and so may the
values that are computed on the way.  Evaluated side by side the two trees stay
in step: at every node both have a value of the same type, or both have ended
with the same fault.

The argument has one lemma for each operator, which says that it looks at the
types of its operands before it looks at anything else (`SameVerdict.applyUnary`,
`SameVerdict.applyBinary`), and an induction over the two trees
(`Expr.SameShape.evalWithin`).  The same holds for a walk of limited depth,
since trees of the same shape have the same height.
-/

namespace LoxCalc

/-- The trees have the same nodes, the same operators and literals of the same
kinds; the texts of the literals may differ. -/
inductive Expr.SameShape : Expr → Expr → Prop
  | literal (kind : Kind) (text text' : Option String) :
      SameShape (.literal kind text) (.literal kind text')
  | grouping {e e' : Expr} (h : SameShape e e') : SameShape (.grouping e) (.grouping e')
  | unary (op : Token) {e e' : Expr} (h : SameShape e e') : SameShape (.unary op e) (.unary op e')
  | binary {l l' r r' : Expr} (hl : SameShape l l') (op : Token) (hr : SameShape r r') :
      SameShape (.binary l op r) (.binary l' op r')

/-- Every number of the tree has a text that is a numeral, and every string has
some text. -/
def Expr.Legible : Expr → Prop
  | literal .number text => ∃ s x, text = some s ∧ Numeral.read? s = some x
  | literal .string text => ∃ s, text = some s
  | literal _ _ => True
  | grouping e => e.Legible
  | unary _ e => e.Legible
  | binary l _ r => l.Legible ∧ r.Legible

/-- The values are of the same type, and strings have texts. -/
inductive Value.SameType : Value → Value → Prop
  | nil : SameType .nil .nil
  | bool (a b : Bool) : SameType (.bool a) (.bool b)
  | number (x y : Float) : SameType (.number x) (.number y)
  | string (s t : String) : SameType (.string (some s)) (.string (some t))

/-- Two evaluations end alike: with values of the same type, with the same
complaint about the same operator, or with the same failed assertion.  Where
`deep` holds, both may also have reached a place that is too deep. -/
inductive SameVerdict (deep : Prop) : Except Fault Value → Except Fault Value → Prop
  | value {v w : Value} (h : v.SameType w) : SameVerdict deep (.ok v) (.ok w)
  | complaint (op : Token) (message : String) :
      SameVerdict deep (.error (Value.typeError op message)) (.error (Value.typeError op message))
  | defect {d : Defect} (hd : d.label = "AssertionError") :
      SameVerdict deep (.error (.defect d)) (.error (.defect d))
  | tooDeep (h : deep) : SameVerdict deep (.error .tooDeep) (.error .tooDeep)

namespace SameVerdict

variable {deep deep' : Prop} {r r' : Except Fault Value} {a a' b b' : Value}

theorem mono (h : SameVerdict deep r r') (hdeep : deep → deep') : SameVerdict deep' r r' := by
  cases h with
  | value h => exact .value h
  | complaint op message => exact .complaint op message
  | defect hd => exact .defect hd
  | tooDeep h => exact .tooDeep (hdeep h)

/-- Going on from values of the same type. -/
theorem bind {f g : Value → Except Fault Value} (h : SameVerdict deep r r')
    (hfg : ∀ v w, v.SameType w → SameVerdict deep (f v) (g w)) :
    SameVerdict deep (r >>= f) (r' >>= g) := by
  cases h with
  | value h => exact hfg _ _ h
  | complaint op message => exact .complaint op message
  | defect hd => exact .defect hd
  | tooDeep h => exact .tooDeep h

/-- The same faults come of evaluations that end alike. -/
theorem error_iff (h : SameVerdict deep r r') (f : Fault) : r = .error f ↔ r' = .error f := by
  cases h with
  | value h => simp
  | _ => rfl

/-! ## Operators -/

/-- A unary operator looks at the type of its operand. -/
theorem applyUnary (op : Token) (h : a.SameType a') :
    SameVerdict deep (Expr.applyUnary op a) (Expr.applyUnary op a') := by
  unfold Expr.applyUnary
  split
  · cases h with
    | number x y => exact .value (.number _ _)
    | _ => exact .complaint op _
  · cases h with
    | bool x y => exact .value (.bool _ _)
    | _ => exact .complaint op _
  · exact .defect rfl

/-- An operation on two numbers looks at the types of its operands, whatever the
numbers are. -/
theorem map_asNumbers {f g : Float × Float → Value} (hfg : ∀ xy zw, (f xy).SameType (g zw))
    (op : Token) (ha : a.SameType a') (hb : b.SameType b') :
    SameVerdict deep ((Value.asNumbers op a b).map f) ((Value.asNumbers op a' b').map g) := by
  cases ha with
  | number x y =>
      cases hb with
      | number z w => exact .value (hfg _ _)
      | _ => exact .complaint op _
  | _ => exact .complaint op _

/-- A sum looks at the types of its operands. -/
theorem sum (op : Token) (ha : a.SameType a') (hb : b.SameType b') :
    SameVerdict deep (Expr.sum op a b) (Expr.sum op a' b') := by
  cases ha with
  | number x y =>
      cases hb with
      | number z w => exact .value (.number _ _)
      | _ => exact .complaint op _
  | string s t =>
      cases hb with
      | string u v => exact .value (.string _ _)
      | _ => exact .complaint op _
  | _ => cases hb <;> exact .complaint op _

/-- **A binary operator looks at the types of its operands** to choose between a
result, its type, and a complaint. -/
theorem applyBinary (op : Token) (ha : a.SameType a') (hb : b.SameType b') :
    SameVerdict deep (Expr.applyBinary op a b) (Expr.applyBinary op a' b') := by
  have harithmetic : ∀ f, SameVerdict deep (Expr.arithmetic f op a b)
      (Expr.arithmetic f op a' b') := by
    intro f
    exact map_asNumbers (fun _ _ => .number _ _) op ha hb
  have hcomparison : ∀ f, SameVerdict deep (Expr.comparison f op a b)
      (Expr.comparison f op a' b') := by
    intro f
    exact map_asNumbers (fun _ _ => .bool _ _) op ha hb
  unfold Expr.applyBinary
  split
  · exact harithmetic _
  · exact harithmetic _
  · exact harithmetic _
  · exact sum op ha hb
  · exact hcomparison _
  · exact hcomparison _
  · exact hcomparison _
  · exact hcomparison _
  · exact .value (.bool _ _)
  · exact .value (.bool _ _)
  · exact .defect rfl

/-- Legible literals of one kind have values of one type, or none at all. -/
theorem evalLiteral {kind : Kind} {text text' : Option String}
    (h : (Expr.literal kind text).Legible) (h' : (Expr.literal kind text').Legible) :
    SameVerdict deep (Expr.evalLiteral kind text) (Expr.evalLiteral kind text') := by
  unfold Expr.evalLiteral
  split
  · obtain ⟨s, x, rfl, hx⟩ := h
    obtain ⟨t, y, rfl, hy⟩ := h'
    simp only [numberOfText, hx, hy]
    exact .value (.number x y)
  · obtain ⟨s, rfl⟩ := h
    obtain ⟨t, rfl⟩ := h'
    exact .value (.string s t)
  · exact .value (.bool _ _)
  · exact .value (.bool _ _)
  · exact .value .nil
  · exact .defect rfl

end SameVerdict

/-! ## Trees -/

namespace Expr.SameShape

variable {e e' : Expr}

theorem height_eq (h : SameShape e e') : e.height = e'.height := by
  induction h with
  | literal kind text text' => rfl
  | grouping h ih => simp only [height, ih]
  | unary op h ih => simp only [height, ih]
  | binary hl op hr ihl ihr => simp only [height, ihl, ihr]

/-- **Trees of the same shape are evaluated in step**, down to any depth. -/
theorem evalWithin (h : SameShape e e') (he : e.Legible) (he' : e'.Legible) (n : Nat) :
    SameVerdict (n < e.height) (e.evalWithin n) (e'.evalWithin n) := by
  induction h generalizing n with
  | literal kind text text' =>
      cases n with
      | zero => exact .tooDeep (Nat.succ_pos _)
      | succ n => exact .evalLiteral he he'
  | @grouping e e' h ih =>
      cases n with
      | zero => exact .tooDeep (Nat.succ_pos _)
      | succ n => exact (ih he he' n).mono Nat.succ_lt_succ
  | @unary op e e' h ih =>
      cases n with
      | zero => exact .tooDeep (Nat.succ_pos _)
      | succ n =>
          refine ((ih he he' n).mono Nat.succ_lt_succ).bind ?_
          intro v w hvw
          exact .applyUnary op hvw
  | @binary l l' r r' hl op hr ihl ihr =>
      cases n with
      | zero => exact .tooDeep (Nat.succ_pos _)
      | succ n =>
          have hleft : n < l.height → n + 1 < (Expr.binary l op r).height := by
            simp only [height]
            omega
          have hright : n < r.height → n + 1 < (Expr.binary l op r).height := by
            simp only [height]
            omega
          refine ((ihl he.1 he'.1 n).mono hleft).bind ?_
          intro a a' ha
          refine ((ihr he.2 he'.2 n).mono hright).bind ?_
          intro b b' hb
          exact .applyBinary op ha hb

/-- Without a limit nothing is too deep. -/
theorem eval (h : SameShape e e') (he : e.Legible) (he' : e'.Legible) :
    SameVerdict False e.eval e'.eval := by
  have hwithin := h.evalWithin he he' e.height
  have hheight : e'.height ≤ e.height := Nat.le_of_eq h.height_eq.symm
  rw [evalWithin_of_height_le (Nat.le_refl _), evalWithin_of_height_le hheight] at hwithin
  exact hwithin.mono (Nat.lt_irrefl _)

end Expr.SameShape

/-- **Type errors are decided by shape alone.**  Two legible trees of the same
shape both have values of the same type, or end with the same complaint about
the same operator, or with the same failed assertion: no number and no string
in them causes an error or hides one.  The program evaluates them alike as
well, and finds both too deep or none. -/
theorem eval_decided_by_shape (e e' : Expr) (hshape : e.SameShape e') (he : e.Legible)
    (he' : e'.Legible) :
    SameVerdict False e.eval e'.eval ∧
      SameVerdict (Expr.levels 3 < e.height) e.eval? e'.eval? ∧
      (∀ f, e.eval = .error f ↔ e'.eval = .error f) ∧
      ∀ f, e.eval? = .error f ↔ e'.eval? = .error f := by
  have heval := hshape.eval he he'
  have hwithin := hshape.evalWithin he he' (Expr.levels 3)
  exact ⟨heval, hwithin, heval.error_iff, hwithin.error_iff⟩

/-- The difference of a quotient and a string. -/
def quotientMinus (x y s : String) : Expr :=
  .binary
    (.binary (.literal .number (some x)) ⟨.symbol .slash, "/", 1, none⟩
      (.literal .number (some y)))
    ⟨.symbol .minus, "-", 2, none⟩ (.literal .string (some s))

/-- Whether the quotient is an infinity or not a number, the string is refused. -/
theorem eval_decided_by_shape_quotient :
    (quotientMinus "1" "0" "a").SameShape (quotientMinus "nan" "1e999" "") ∧
      (quotientMinus "1" "0" "a").Legible ∧ (quotientMinus "nan" "1e999" "").Legible ∧
      (quotientMinus "nan" "1e999" "").eval = .error
        (Value.typeError ⟨.symbol .minus, "-", 2, none⟩ "Expected number but found string") := by
  have hshape : (quotientMinus "1" "0" "a").SameShape (quotientMinus "nan" "1e999" "") :=
    .binary (.binary (.literal _ _ _) _ (.literal _ _ _)) _ (.literal _ _ _)
  have hinfinite : (quotientMinus "1" "0" "a").Legible :=
    ⟨⟨⟨"1", _, rfl, rfl⟩, ⟨"0", _, rfl, rfl⟩⟩, ⟨"a", rfl⟩⟩
  have hundefined : (quotientMinus "nan" "1e999" "").Legible :=
    ⟨⟨⟨"nan", _, rfl, rfl⟩, ⟨"1e999", _, rfl, rfl⟩⟩, ⟨"", rfl⟩⟩
  obtain ⟨-, -, herror, -⟩ := eval_decided_by_shape _ _ hshape hinfinite hundefined
  refine ⟨hshape, hinfinite, hundefined, ?_⟩
  rw [← herror]
  rfl

end LoxCalc
