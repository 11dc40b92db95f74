import LoxCalc.Proofs.Soundness

/-!
# The first offence is blamed

What a tree means is given by rules, from the operands up: `Expr.Evaluates`.
There is no rule for an operator whose operands have values of the wrong types.
Such a node is an **offence** (`Expr.Offence`), and there may be many of them in
a tree.  Evaluation blames the first one if the nodes are taken in postorder,
operands before their operator and left before right.

* `Expr.Evaluates.eval_eq`, `Expr.Offence.eval_eq`: what the rules say of a node
  is what evaluating it gives;
* `unary_progress`, `binary_progress`: a node whose operands have values has a
  value itself or is an offence;
* `Expr.Valid.judged`: by induction over the tree, there is a value and no
  offence, or a first offence, which is the one that is complained about.
-/

namespace LoxCalc

/-- The literals of the tree have values and its operators are known. -/
inductive Expr.Valid : Expr → Prop
  | number {text : String} {x : Float} (hx : Numeral.read? text = some x) :
      Valid (.literal .number (some text))
  | string (text : String) : Valid (.literal .string (some text))
  | keyword {k : Keyword} (hk : Kind.keyword k ∈ literalKinds) (text : Option String) :
      Valid (.literal (.keyword k) text)
  | grouping {e : Expr} (he : Valid e) : Valid (.grouping e)
  | unary {op : Token} {e : Expr} (hop : op.kind ∈ unaryOperators) (he : Valid e) :
      Valid (.unary op e)
  | binary {l r : Expr} {op : Token} {level : Level} (hl : Valid l)
      (hop : op.kind ∈ level.operators) (hr : Valid r) : Valid (.binary l op r)

/-- The nodes of a tree, operands before their operator and left before right. -/
def Expr.postorder : Expr → List Expr
  | literal kind text => [literal kind text]
  | grouping e => e.postorder ++ [grouping e]
  | unary op e => e.postorder ++ [unary op e]
  | binary l op r => l.postorder ++ r.postorder ++ [binary l op r]

/-! ## Values by rules -/

/-- The equality of the language.  Values of different types are not equal, and
numbers are equal as numbers. -/
inductive Value.Equals : Value → Value → Prop
  | nil : Equals .nil .nil
  | bool (b : Bool) : Equals (.bool b) (.bool b)
  | number {x y : Float} (h : (x == y) = true) : Equals (.number x) (.number y)
  | string (text : Option String) : Equals (.string text) (.string text)

/-- The operators that make a number of two numbers. -/
inductive Arithmetic : Kind → (Float → Float → Float) → Prop
  | difference : Arithmetic (.symbol .minus) fun x y => x - y
  | product : Arithmetic (.symbol .star) fun x y => x * y
  | quotient : Arithmetic (.symbol .slash) divide

/-- The operators that compare two numbers. -/
inductive Comparison : Kind → (Float → Float → Bool) → Prop
  | greater : Comparison (.symbol .greater) fun x y => y < x
  | greaterEqual : Comparison (.symbol .greaterEqual) fun x y => y ≤ x
  | less : Comparison (.symbol .less) fun x y => x < y
  | lessEqual : Comparison (.symbol .lessEqual) fun x y => x ≤ y

/-- The operators that take two numbers and nothing else. -/
def numericOperators : List Kind :=
  [.symbol .minus, .symbol .star, .symbol .slash, .symbol .greater, .symbol .greaterEqual,
    .symbol .less, .symbol .lessEqual]

namespace Expr

/-- The value of a tree, from the operands up. -/
inductive Evaluates : Expr → Value → Prop
  | number {text : String} {x : Float} (hx : Numeral.read? text = some x) :
      Evaluates (.literal .number (some text)) (.number x)
  | string (text : String) : Evaluates (.literal .string (some text)) (.string (some text))
  | truth (text : Option String) : Evaluates (.literal (.keyword .trueWord) text) (.bool true)
  | falsity (text : Option String) : Evaluates (.literal (.keyword .falseWord) text) (.bool false)
  | nil (text : Option String) : Evaluates (.literal (.keyword .nilWord) text) .nil
  | grouping {e : Expr} {v : Value} (h : Evaluates e v) : Evaluates (.grouping e) v
  | negative {op : Token} {e : Expr} {x : Float} (hop : op.kind = .symbol .minus)
      (h : Evaluates e (.number x)) : Evaluates (.unary op e) (.number (-x))
  | negation {op : Token} {e : Expr} {b : Bool} (hop : op.kind = .symbol .bang)
      (h : Evaluates e (.bool b)) : Evaluates (.unary op e) (.bool (!b))
  | arithmetic {op : Token} {f : Float → Float → Float} {l r : Expr} {x y : Float}
      (hop : Arithmetic op.kind f) (hl : Evaluates l (.number x)) (hr : Evaluates r (.number y)) :
      Evaluates (.binary l op r) (.number (f x y))
  | comparison {op : Token} {f : Float → Float → Bool} {l r : Expr} {x y : Float}
      (hop : Comparison op.kind f) (hl : Evaluates l (.number x)) (hr : Evaluates r (.number y)) :
      Evaluates (.binary l op r) (.bool (f x y))
  | sum {op : Token} {l r : Expr} {x y : Float} (hop : op.kind = .symbol .plus)
      (hl : Evaluates l (.number x)) (hr : Evaluates r (.number y)) :
      Evaluates (.binary l op r) (.number (x + y))
  | join {op : Token} {l r : Expr} {s t : String} (hop : op.kind = .symbol .plus)
      (hl : Evaluates l (.string (some s))) (hr : Evaluates r (.string (some t))) :
      Evaluates (.binary l op r) (.string (some (s ++ t)))
  | equal {op : Token} {l r : Expr} {u v : Value} {b : Bool} (hop : op.kind = .symbol .equalEqual)
      (hl : Evaluates l u) (hr : Evaluates r v) (hb : b = true ↔ u.Equals v) :
      Evaluates (.binary l op r) (.bool b)
  | unequal {op : Token} {l r : Expr} {u v : Value} {b : Bool}
      (hop : op.kind = .symbol .bangEqual) (hl : Evaluates l u) (hr : Evaluates r v)
      (hb : b = true ↔ ¬u.Equals v) : Evaluates (.binary l op r) (.bool b)

/-- The operands of the node have values, but not of the types that its operator
takes.  The operator is to blame, and the message names the type of the first
operand that does not suit it. -/
inductive Offence : Expr → Token → String → Prop
  | negative {op : Token} {e : Expr} {v : Value} (hop : op.kind = .symbol .minus)
      (h : Evaluates e v) (hv : ∀ x, v ≠ .number x) :
      Offence (.unary op e) op ("Expected number but found " ++ v.typeName)
  | negation {op : Token} {e : Expr} {v : Value} (hop : op.kind = .symbol .bang)
      (h : Evaluates e v) (hv : ∀ b, v ≠ .bool b) :
      Offence (.unary op e) op ("Expected bool but found " ++ v.typeName)
  | left {op : Token} {l r : Expr} {u v : Value} (hop : op.kind ∈ numericOperators)
      (hl : Evaluates l u) (hr : Evaluates r v) (hu : ∀ x, u ≠ .number x) :
      Offence (.binary l op r) op ("Expected number but found " ++ u.typeName)
  | right {op : Token} {l r : Expr} {x : Float} {v : Value} (hop : op.kind ∈ numericOperators)
      (hl : Evaluates l (.number x)) (hr : Evaluates r v) (hv : ∀ y, v ≠ .number y) :
      Offence (.binary l op r) op ("Expected number but found " ++ v.typeName)
  | sum {op : Token} {l r : Expr} {u v : Value} (hop : op.kind = .symbol .plus)
      (hl : Evaluates l u) (hr : Evaluates r v)
      (hnumbers : ∀ x y, ¬(u = .number x ∧ v = .number y))
      (hstrings : ∀ s t, ¬(u = .string s ∧ v = .string t)) :
      Offence (.binary l op r) op "Mismatched types"

/-- The node is an offence. -/
def Offends (n : Expr) : Prop :=
  ∃ op message, n.Offence op message

/-- The operator is to blame for the first offence in the tree. -/
def FirstOffence (e : Expr) (op : Token) (message : String) : Prop :=
  ∃ before n after, e.postorder = before ++ n :: after ∧ (∀ m ∈ before, ¬m.Offends) ∧
    n.Offence op message

end Expr

/-! ## Operators -/

/-- Values are found equal exactly if they are. -/
theorem Value.isEqual_iff (u v : Value) : u.isEqual v = true ↔ u.Equals v := by
  constructor
  · intro h
    cases u with
    | nil =>
        cases v with
        | nil => exact .nil
        | _ => cases h
    | bool a =>
        cases v with
        | bool b =>
            obtain rfl : a = b := eq_of_beq h
            exact .bool a
        | _ => cases h
    | number x =>
        cases v with
        | number y => exact .number h
        | _ => cases h
    | string s =>
        cases v with
        | string t =>
            obtain rfl : s = t := eq_of_beq h
            exact .string s
        | _ => cases h
  · intro h
    cases h with
    | nil => rfl
    | bool b => exact beq_self_eq_true b
    | number h => exact h
    | string text => exact beq_self_eq_true text

theorem Value.not_isEqual_iff (u v : Value) : (!u.isEqual v) = true ↔ ¬u.Equals v := by
  rw [← isEqual_iff, Bool.not_eq_true', Bool.not_eq_true]

namespace Expr

variable {op : Token} {u v : Value}

theorem applyBinary_arithmetic {f : Float → Float → Float} (h : Arithmetic op.kind f)
    (u v : Value) : applyBinary op u v = arithmetic f op u v := by
  unfold applyBinary
  generalize op.kind = kind at h
  cases h <;> rfl

theorem applyBinary_comparison {f : Float → Float → Bool} (h : Comparison op.kind f)
    (u v : Value) : applyBinary op u v = comparison f op u v := by
  unfold applyBinary
  generalize op.kind = kind at h
  cases h <;> rfl

/-- A binary operator of the grammar is of one of five sorts. -/
theorem binary_sorts {level : Level} (hop : op.kind ∈ level.operators) :
    (∃ f, Arithmetic op.kind f) ∨ (∃ f, Comparison op.kind f) ∨ op.kind = .symbol .plus ∨
      op.kind = .symbol .equalEqual ∨ op.kind = .symbol .bangEqual := by
  generalize op.kind = kind at hop
  cases level with
  | equality =>
      simp only [Level.operators, List.mem_cons, List.not_mem_nil, or_false] at hop
      rcases hop with rfl | rfl
      · exact .inr (.inr (.inr (.inr rfl)))
      · exact .inr (.inr (.inr (.inl rfl)))
  | comparison =>
      simp only [Level.operators, List.mem_cons, List.not_mem_nil, or_false] at hop
      rcases hop with rfl | rfl | rfl | rfl
      · exact .inr (.inl ⟨_, .greater⟩)
      · exact .inr (.inl ⟨_, .greaterEqual⟩)
      · exact .inr (.inl ⟨_, .less⟩)
      · exact .inr (.inl ⟨_, .lessEqual⟩)
  | term =>
      simp only [Level.operators, List.mem_cons, List.not_mem_nil, or_false] at hop
      rcases hop with rfl | rfl
      · exact .inl ⟨_, .difference⟩
      · exact .inr (.inr (.inl rfl))
  | factor =>
      simp only [Level.operators, List.mem_cons, List.not_mem_nil, or_false] at hop
      rcases hop with rfl | rfl
      · exact .inl ⟨_, .quotient⟩
      · exact .inl ⟨_, .product⟩

/-- The operators that take two numbers look for them before they do anything. -/
theorem applyBinary_numeric (hop : op.kind ∈ numericOperators) :
    ∃ f : Float × Float → Value, ∀ u v, applyBinary op u v = (Value.asNumbers op u v).map f := by
  unfold applyBinary
  generalize op.kind = kind at hop
  simp only [numericOperators, List.mem_cons, List.not_mem_nil, or_false] at hop
  rcases hop with rfl | rfl | rfl | rfl | rfl | rfl | rfl <;> exact ⟨_, fun _ _ => rfl⟩

theorem arithmetic_mem_numericOperators {kind : Kind} {f : Float → Float → Float}
    (h : Arithmetic kind f) : kind ∈ numericOperators := by
  cases h <;> decide

theorem comparison_mem_numericOperators {kind : Kind} {f : Float → Float → Bool}
    (h : Comparison kind f) : kind ∈ numericOperators := by
  cases h <;> decide

/-- What is not a number is refused where a number is needed. -/
theorem asNumber_of_ne (op : Token) (hv : ∀ x, v ≠ .number x) :
    v.asNumber op
      = .error (Value.typeError op ("Expected number but found " ++ v.typeName)) := by
  cases v with
  | number x => exact absurd rfl (hv x)
  | _ => rfl

/-- What is not a boolean is refused where a boolean is needed. -/
theorem asBool_of_ne (op : Token) (hv : ∀ b, v ≠ .bool b) :
    v.asBool op = .error (Value.typeError op ("Expected bool but found " ++ v.typeName)) := by
  cases v with
  | bool b => exact absurd rfl (hv b)
  | _ => rfl

/-- What can be neither added nor joined is refused. -/
theorem sum_of_ne (op : Token) (hnumbers : ∀ x y, ¬(u = .number x ∧ v = .number y))
    (hstrings : ∀ s t, ¬(u = .string s ∧ v = .string t)) :
    sum op u v = .error (Value.typeError op "Mismatched types") := by
  cases u with
  | number x =>
      cases v with
      | number y => exact absurd ⟨rfl, rfl⟩ (hnumbers x y)
      | _ => rfl
  | string s =>
      cases v with
      | string t => exact absurd ⟨rfl, rfl⟩ (hstrings s t)
      | _ => rfl
  | _ => rfl

/-! ## The rules and the evaluator -/

variable {e n : Expr}

/-- **What the rules give is what evaluation gives.** -/
theorem Evaluates.eval_eq (h : Evaluates e v) : e.eval = .ok v := by
  induction h with
  | number hx =>
      simp only [eval, evalLiteral, numberOfText, hx]
      rfl
  | string text => rfl
  | truth text => rfl
  | falsity text => rfl
  | nil text => rfl
  | grouping h ih => exact ih
  | negative hop h ih =>
      rw [eval, ih]
      simp only [bind, Except.bind, applyUnary, hop]
      rfl
  | negation hop h ih =>
      rw [eval, ih]
      simp only [bind, Except.bind, applyUnary, hop]
      rfl
  | arithmetic hop hl hr ihl ihr =>
      rw [eval, ihl, ihr]
      exact applyBinary_arithmetic hop _ _
  | comparison hop hl hr ihl ihr =>
      rw [eval, ihl, ihr]
      exact applyBinary_comparison hop _ _
  | sum hop hl hr ihl ihr =>
      rw [eval, ihl, ihr]
      simp only [bind, Except.bind, applyBinary, hop]
      rfl
  | join hop hl hr ihl ihr =>
      rw [eval, ihl, ihr]
      simp only [bind, Except.bind, applyBinary, hop]
      rfl
  | @equal op l r u v b hop hl hr hb ihl ihr =>
      have hresult : u.isEqual v = b := Bool.eq_iff_iff.mpr ((u.isEqual_iff v).trans hb.symm)
      rw [eval, ihl, ihr]
      simp only [bind, Except.bind, applyBinary, hop, hresult]
  | @unequal op l r u v b hop hl hr hb ihl ihr =>
      have hresult : (!u.isEqual v) = b :=
        Bool.eq_iff_iff.mpr ((u.not_isEqual_iff v).trans hb.symm)
      rw [eval, ihl, ihr]
      simp only [bind, Except.bind, applyBinary, hop, hresult]

/-- A string that is the value of a tree has a text. -/
theorem Evaluates.exists_text {text : Option String} (h : Evaluates e (.string text)) :
    ∃ s, text = some s := by
  generalize hv : Value.string text = v at h
  induction h with
  | string s => exact ⟨s, Value.string.inj hv⟩
  | grouping h ih => exact ih hv
  | join hop hl hr => exact ⟨_, Value.string.inj hv⟩
  | _ => cases hv

/-- **An offence is complained about.** -/
theorem Offence.eval_eq {message : String} (h : Offence n op message) :
    n.eval = .error (Value.typeError op message) := by
  cases h with
  | negative hop h hv =>
      rw [eval, h.eval_eq]
      simp only [bind, Except.bind, applyUnary, hop, asNumber_of_ne _ hv]
      rfl
  | negation hop h hv =>
      rw [eval, h.eval_eq]
      simp only [bind, Except.bind, applyUnary, hop, asBool_of_ne _ hv]
      rfl
  | left hop hl hr hu =>
      obtain ⟨f, hf⟩ := applyBinary_numeric hop
      rw [eval, hl.eval_eq, hr.eval_eq]
      simp only [bind, Except.bind, hf, Value.asNumbers, asNumber_of_ne _ hu]
      rfl
  | @right _ l r x v hop hl hr hv =>
      obtain ⟨f, hf⟩ := applyBinary_numeric hop
      have hx : (Value.number x).asNumber op = .ok x := rfl
      rw [eval, hl.eval_eq, hr.eval_eq]
      simp only [bind, Except.bind, hf, Value.asNumbers, hx, asNumber_of_ne _ hv]
      rfl
  | sum hop hl hr hnumbers hstrings =>
      rw [eval, hl.eval_eq, hr.eval_eq]
      simp only [bind, Except.bind, applyBinary, hop, sum_of_ne _ hnumbers hstrings]

/-- A node that has a value is no offence. -/
theorem Evaluates.not_offends (h : Evaluates n v) : ¬n.Offends := by
  rintro ⟨op, message, hoffence⟩
  have hcontra := h.eval_eq.symm.trans hoffence.eval_eq
  cases hcontra

/-- One operator is to blame for an offence, with one message. -/
theorem Offence.unique {op' : Token} {message message' : String} (h : Offence n op message)
    (h' : Offence n op' message') : op = op' ∧ message = message' := by
  have heq := Except.error.inj (h.eval_eq.symm.trans h'.eval_eq)
  simp only [Value.typeError, Diagnostic.about, Fault.complaint.injEq, Complaint.mk.injEq,
    List.cons.injEq, Diagnostic.mk.injEq, Option.some.injEq, true_and, and_true] at heq
  exact ⟨heq.2.1, heq.1⟩

/-! ## Progress -/

/-- An operator before its operand gives a value or offends. -/
theorem unary_progress (hop : op.kind ∈ unaryOperators) (h : Evaluates e v) :
    (∃ w, Evaluates (.unary op e) w) ∨ (unary op e).Offends := by
  simp only [unaryOperators, List.mem_cons, List.not_mem_nil, or_false] at hop
  rcases hop with hop | hop
  · by_cases hv : ∃ b, v = .bool b
    · obtain ⟨b, rfl⟩ := hv
      exact .inl ⟨_, .negation hop h⟩
    · exact .inr ⟨_, _, .negation hop h fun b hb => hv ⟨b, hb⟩⟩
  · by_cases hv : ∃ x, v = .number x
    · obtain ⟨x, rfl⟩ := hv
      exact .inl ⟨_, .negative hop h⟩
    · exact .inr ⟨_, _, .negative hop h fun x hx => hv ⟨x, hx⟩⟩

section Binary

variable {l r : Expr} (hl : Evaluates l u) (hr : Evaluates r v)

include hl hr

/-- An operator that takes two numbers gives a value or offends. -/
theorem numeric_progress (hop : op.kind ∈ numericOperators)
    (hvalue : ∀ x y, u = .number x → v = .number y → ∃ w, Evaluates (.binary l op r) w) :
    (∃ w, Evaluates (.binary l op r) w) ∨ (binary l op r).Offends := by
  by_cases hu : ∃ x, u = .number x
  · obtain ⟨x, rfl⟩ := hu
    by_cases hv : ∃ y, v = .number y
    · obtain ⟨y, rfl⟩ := hv
      exact .inl (hvalue x y rfl rfl)
    · exact .inr ⟨_, _, .right hop hl hr fun y hy => hv ⟨y, hy⟩⟩
  · exact .inr ⟨_, _, .left hop hl hr fun x hx => hu ⟨x, hx⟩⟩

/-- A sum has a value or offends. -/
theorem sum_progress (hop : op.kind = .symbol .plus) :
    (∃ w, Evaluates (.binary l op r) w) ∨ (binary l op r).Offends := by
  by_cases hnumbers : ∃ x y, u = .number x ∧ v = .number y
  · obtain ⟨x, y, rfl, rfl⟩ := hnumbers
    exact .inl ⟨_, .sum hop hl hr⟩
  by_cases hstrings : ∃ s t, u = .string s ∧ v = .string t
  · obtain ⟨s, t, rfl, rfl⟩ := hstrings
    obtain ⟨a, rfl⟩ := hl.exists_text
    obtain ⟨b, rfl⟩ := hr.exists_text
    exact .inl ⟨_, .join hop hl hr⟩
  · exact .inr ⟨_, _, .sum hop hl hr (fun x y h => hnumbers ⟨x, y, h⟩)
      fun s t h => hstrings ⟨s, t, h⟩⟩

/-- An operator between its operands gives a value or offends. -/
theorem binary_progress {level : Level} (hop : op.kind ∈ level.operators) :
    (∃ w, Evaluates (.binary l op r) w) ∨ (binary l op r).Offends := by
  rcases binary_sorts hop with ⟨f, hf⟩ | ⟨f, hf⟩ | hplus | hequal | hunequal
  · apply numeric_progress hl hr (arithmetic_mem_numericOperators hf)
    rintro x y rfl rfl
    exact ⟨_, .arithmetic hf hl hr⟩
  · apply numeric_progress hl hr (comparison_mem_numericOperators hf)
    rintro x y rfl rfl
    exact ⟨_, .comparison hf hl hr⟩
  · exact sum_progress hl hr hplus
  · exact .inl ⟨_, .equal hequal hl hr (u.isEqual_iff v)⟩
  · exact .inl ⟨_, .unequal hunequal hl hr (u.not_isEqual_iff v)⟩

end Binary

/-! ## The first offence -/

/-- The tree has a value and there is no offence in it, or the first offence is
the one that evaluation complains about. -/
def Judged (e : Expr) : Prop :=
  (∃ v, Evaluates e v ∧ ∀ n ∈ e.postorder, ¬n.Offends) ∨
    ∃ op message, e.FirstOffence op message ∧ e.eval = .error (Value.typeError op message)

/-- The first offence in an operand is the first one in the tree if there is none
before the operand. -/
theorem FirstOffence.within {e' : Expr} {message : String} {front tail : List Expr}
    (h : FirstOffence e op message) (hfront : ∀ n ∈ front, ¬n.Offends)
    (hpost : e'.postorder = front ++ (e.postorder ++ tail)) : FirstOffence e' op message := by
  obtain ⟨before, n, after, hsplit, hbefore, hoffence⟩ := h
  refine ⟨front ++ before, n, after ++ tail, ?_, ?_, hoffence⟩
  · rw [hpost, hsplit]
    simp only [List.append_assoc, List.cons_append]
  · intro m hm
    rcases List.mem_append.mp hm with hm | hm
    · exact hfront m hm
    · exact hbefore m hm

/-- A node without offences before it has a value or is the first offence. -/
theorem Judged.of_progress {front : List Expr} (hpost : e.postorder = front ++ [e])
    (hfront : ∀ n ∈ front, ¬n.Offends) (h : (∃ w, Evaluates e w) ∨ e.Offends) : Judged e := by
  rcases h with ⟨w, hw⟩ | ⟨op, message, hoffence⟩
  · refine .inl ⟨w, hw, ?_⟩
    intro n hn
    rw [hpost] at hn
    rcases List.mem_append.mp hn with hn | hn
    · exact hfront n hn
    · obtain rfl := List.mem_singleton.mp hn
      exact hw.not_offends
  · exact .inr ⟨op, message, ⟨front, e, [], hpost, hfront, hoffence⟩, hoffence.eval_eq⟩

/-- A literal that has a value is judged. -/
theorem Judged.literal {kind : Kind} {text : Option String}
    (h : Evaluates (.literal kind text) v) : Judged (.literal kind text) := by
  have hpost : (Expr.literal kind text).postorder = [] ++ [.literal kind text] := rfl
  exact .of_progress hpost (List.forall_mem_nil _) (.inl ⟨v, h⟩)

/-- **Every valid tree is judged.**  The offences of an operand come before those
of its operator, and those of the left operand before those of the right one, as
in evaluation. -/
theorem Valid.judged (h : e.Valid) : Judged e := by
  induction h with
  | number hx => exact .literal (.number hx)
  | string text => exact .literal (.string text)
  | keyword hk text =>
      rcases Token.keyword_mem_literalKinds.mp hk with rfl | rfl | rfl
      · exact .literal (.truth text)
      · exact .literal (.falsity text)
      · exact .literal (.nil text)
  | @grouping e he ih =>
      rcases ih with ⟨v, hv, hnone⟩ | ⟨op, message, hfirst, herror⟩
      · exact .of_progress rfl hnone (.inl ⟨v, .grouping hv⟩)
      · exact .inr ⟨op, message, hfirst.within (List.forall_mem_nil _) rfl, herror⟩
  | @unary op e hop he ih =>
      rcases ih with ⟨v, hv, hnone⟩ | ⟨op', message, hfirst, herror⟩
      · exact .of_progress rfl hnone (unary_progress hop hv)
      · refine .inr ⟨op', message, hfirst.within (List.forall_mem_nil _) rfl, ?_⟩
        rw [eval, herror]
        rfl
  | @binary l r op level hl hop hr ihl ihr =>
      rcases ihl with ⟨u, hu, hleft⟩ | ⟨op', message, hfirst, herror⟩
      · rcases ihr with ⟨v, hv, hright⟩ | ⟨op', message, hfirst, herror⟩
        · refine .of_progress rfl ?_ (binary_progress hu hv hop)
          intro n hn
          rcases List.mem_append.mp hn with hn | hn
          · exact hleft n hn
          · exact hright n hn
        · refine .inr ⟨op', message, hfirst.within hleft (List.append_assoc _ _ _), ?_⟩
          rw [eval, hu.eval_eq, herror]
          rfl
      · have hpost : (Expr.binary l op r).postorder
            = [] ++ (l.postorder ++ (r.postorder ++ [.binary l op r])) := List.append_assoc _ _ _
        refine .inr ⟨op', message, hfirst.within (List.forall_mem_nil _) hpost, ?_⟩
        rw [eval, herror]
        rfl

/-- Two ways to find the first member with a property find the same one. -/
theorem first_unique {p : Expr → Prop} {before before' after after' : List Expr} {n n' : Expr}
    (hbefore : ∀ m ∈ before, ¬p m) (hn : p n) (hbefore' : ∀ m ∈ before', ¬p m) (hn' : p n')
    (h : before ++ n :: after = before' ++ n' :: after') : n = n' := by
  induction before generalizing before' with
  | nil =>
      cases before' with
      | nil => exact (List.cons.inj h).1
      | cons m before' =>
          obtain ⟨rfl, -⟩ := List.cons.inj h
          exact absurd hn (hbefore' n List.mem_cons_self)
  | cons m before ih =>
      cases before' with
      | nil =>
          obtain ⟨rfl, -⟩ := List.cons.inj h
          exact absurd hn' (hbefore m List.mem_cons_self)
      | cons m' before' =>
          exact ih (fun x hx => hbefore x (List.mem_cons_of_mem _ hx))
            (fun x hx => hbefore' x (List.mem_cons_of_mem _ hx)) (List.cons.inj h).2

/-- There is one first offence at most. -/
theorem FirstOffence.unique {op' : Token} {message message' : String}
    (h : FirstOffence e op message) (h' : FirstOffence e op' message') :
    op = op' ∧ message = message' := by
  obtain ⟨before, n, after, hsplit, hbefore, hoffence⟩ := h
  obtain ⟨before', n', after', hsplit', hbefore', hoffence'⟩ := h'
  obtain rfl : n = n' := first_unique hbefore ⟨_, _, hoffence⟩ hbefore' ⟨_, _, hoffence'⟩
    (hsplit.symm.trans hsplit')
  exact hoffence.unique hoffence'

/-- The first offence is one of the nodes. -/
theorem FirstOffence.exists_offends {message : String} (h : FirstOffence e op message) :
    ∃ n ∈ e.postorder, n.Offends := by
  obtain ⟨before, n, after, hsplit, -, hoffence⟩ := h
  refine ⟨n, ?_, op, message, hoffence⟩
  rw [hsplit]
  exact List.mem_append_right before List.mem_cons_self

/-- Evaluating a valid tree fails with a complaint about its first offence. -/
theorem Valid.eval_error_iff (h : e.Valid) (f : Fault) :
    e.eval = .error f ↔
      ∃ op message, e.FirstOffence op message ∧ f = Value.typeError op message := by
  rcases h.judged with ⟨v, hv, hnone⟩ | ⟨op, message, hfirst, herror⟩
  · rw [hv.eval_eq]
    constructor
    · intro hcontra
      cases hcontra
    · rintro ⟨op, message, hfirst, -⟩
      obtain ⟨n, hn, hoffends⟩ := hfirst.exists_offends
      exact absurd hoffends (hnone n hn)
  · rw [herror]
    constructor
    · intro heq
      exact ⟨op, message, hfirst, (Except.error.inj heq).symm⟩
    · rintro ⟨op', message', hfirst', rfl⟩
      obtain ⟨rfl, rfl⟩ := hfirst.unique hfirst'
      rfl

/-- A valid tree evaluates to what the rules give. -/
theorem Valid.eval_ok_iff (h : e.Valid) (v : Value) : e.eval = .ok v ↔ e.Evaluates v := by
  constructor
  · intro heval
    rcases h.judged with ⟨w, hw, -⟩ | ⟨op, message, -, herror⟩
    · obtain rfl : v = w := Except.ok.inj (heval.symm.trans hw.eval_eq)
      exact hw
    · rw [heval] at herror
      cases herror
  · exact Evaluates.eval_eq

end Expr

/-- **The first offence is blamed, and nothing else.**  Evaluating a valid tree
ends in an evaluation error if and only if some node of the tree is an offence.
The error is then a single diagnostic about the operator of the first offence in
postorder, with its message.  Without an offence the tree has the value that the
rules give from the operands up.  The program comes to the same end unless the
tree is too high. -/
theorem eval_blames_first_offence (e : Expr) (he : e.Valid) :
    ((∃ c, e.eval = .error (.complaint c) ∧ c.stage = .evaluation) ↔
      ∃ n ∈ e.postorder, n.Offends) ∧
    (∀ f, e.eval = .error f ↔
      ∃ before n after op message, e.postorder = before ++ n :: after ∧
        (∀ m ∈ before, ¬m.Offends) ∧ n.Offence op message ∧
        f = .complaint ⟨.evaluation, [⟨message, some op, some op.line⟩], false⟩) ∧
    (∀ v, e.eval = .ok v ↔ e.Evaluates v) ∧
    ((∀ n ∈ e.postorder, ¬n.Offends) ↔ ∃ v, e.eval = .ok v) ∧
    (e.height ≤ Expr.levels 3 → e.eval? = e.eval) := by
  have hblame := he.eval_error_iff
  refine ⟨?_, ?_, he.eval_ok_iff, ?_, Expr.evalWithin_of_height_le⟩
  · constructor
    · rintro ⟨c, hc, -⟩
      obtain ⟨op, message, hfirst, -⟩ := (hblame _).mp hc
      exact hfirst.exists_offends
    · rintro ⟨n, hn, hoffends⟩
      rcases he.judged with ⟨v, -, hnone⟩ | ⟨op, message, -, herror⟩
      · exact absurd hoffends (hnone n hn)
      · exact ⟨_, herror, rfl⟩
  · intro f
    rw [hblame]
    constructor
    · rintro ⟨op, message, ⟨before, n, after, hsplit, hbefore, hoffence⟩, rfl⟩
      exact ⟨before, n, after, op, message, hsplit, hbefore, hoffence, rfl⟩
    · rintro ⟨before, n, after, op, message, hsplit, hbefore, hoffence, rfl⟩
      exact ⟨op, message, ⟨before, n, after, hsplit, hbefore, hoffence⟩, rfl⟩
  · rcases he.judged with ⟨v, hv, hnone⟩ | ⟨op, message, hfirst, herror⟩
    · exact ⟨fun _ => ⟨v, hv.eval_eq⟩, fun _ => hnone⟩
    · obtain ⟨n, hn, hoffends⟩ := hfirst.exists_offends
      constructor
      · intro hnone
        exact absurd hoffends (hnone n hn)
      · rintro ⟨v, hv⟩
        rw [hv] at herror
        cases herror

/-- The product of nil and a sum of a number and a string, less a negated number:
`nil * (1 + "a") - !2`. -/
def threeOffences : Expr :=
  .binary
    (.binary (.literal (.keyword .nilWord) none) ⟨.symbol .star, "*", 1, none⟩
      (.grouping (.binary (.literal .number (some "1")) ⟨.symbol .plus, "+", 2, none⟩
        (.literal .string (some "a")))))
    ⟨.symbol .minus, "-", 3, none⟩
    (.unary ⟨.symbol .bang, "!", 4, none⟩ (.literal .number (some "2")))

/-- The sum is blamed: it comes before the negation, and the product has an operand
without a value. -/
theorem eval_blames_first_offence_sum :
    threeOffences.Valid ∧
      threeOffences.eval = .error (.complaint ⟨.evaluation,
        [⟨"Mismatched types", some ⟨.symbol .plus, "+", 2, none⟩, some 2⟩], false⟩) := by
  have hstar : Kind.symbol .star ∈ Level.factor.operators := by decide
  have hplus : Kind.symbol .plus ∈ Level.term.operators := by decide
  have hminus : Kind.symbol .minus ∈ Level.term.operators := by decide
  obtain ⟨x, hx⟩ : ∃ x, Numeral.read? "1" = some x := ⟨_, rfl⟩
  obtain ⟨y, hy⟩ : ∃ y, Numeral.read? "2" = some y := ⟨_, rfl⟩
  have hvalid : threeOffences.Valid :=
    .binary
      (.binary (.keyword (by decide) none) hstar
        (.grouping (.binary (.number hx) hplus (.string "a"))))
      hminus (.unary (by decide) (.number hy))
  refine ⟨hvalid, ?_⟩
  obtain ⟨-, hblame, -⟩ := eval_blames_first_offence threeOffences hvalid
  rw [hblame]
  -- nil, the number and the string come before the sum
  refine ⟨[.literal (.keyword .nilWord) none, .literal .number (some "1"),
    .literal .string (some "a")], _, _, _, _, rfl, ?_, ?_, rfl⟩
  · intro m hm
    simp only [List.mem_cons, List.not_mem_nil, or_false] at hm
    rcases hm with rfl | rfl | rfl
    · exact (Expr.Evaluates.nil none).not_offends
    · exact (Expr.Evaluates.number hx).not_offends
    · exact (Expr.Evaluates.string "a").not_offends
  · refine .sum rfl (.number hx) (.string "a") ?_ ?_
    · rintro x y ⟨-, h⟩
      cases h
    · rintro s t ⟨h, -⟩
      cases h

end LoxCalc
