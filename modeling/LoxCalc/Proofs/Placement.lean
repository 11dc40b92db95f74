import LoxCalc.Proofs.ReadBack

/-!
# Lines carry no meaning

Tokens carry the lines they stand on, and complaints tell them, but no decision
is made by them.  So every stage commutes with putting tokens, trees and
diagnostics on no particular line:

* `read_unplaced`: reading, for any tokens, whether they are an expression or not;
* `Expr.echoWithin_unplaced`, `Expr.dump_unplaced`: showing a tree, where not
  even the outcome knows about lines;
* `Expr.evalWithin_unplaced`: evaluating it.

Texts with the **same tokens** up to lines are then parsed, shown and evaluated
in the same way, up to lines (`Expr.Sound.alike`, `SameTokens.parsedAlike`).
-/

namespace LoxCalc

/-! ## Building an expression -/

/-- The frame with its operator on no particular line. -/
def Frame.unplaced : Frame → Frame
  | group => group
  | unary op => unary op.unplaced
  | binary left op level => binary left.unplaced op.unplaced level

/-- The builder with everything on no particular line. -/
def Builder.unplaced (b : Builder) : Builder where
  stack := b.stack.map Frame.unplaced
  operand := b.operand.map Expr.unplaced
  errors := b.errors.map Diagnostic.unplaced

/-- The reading with everything on no particular line. -/
def Reading.unplaced (r : Reading) : Reading where
  expr := r.expr.unplaced
  errors := r.errors.map Diagnostic.unplaced
  rest := r.rest.map Token.unplaced

namespace Token

variable (t : Token)

@[simp] theorem isLiteral_unplaced : t.unplaced.isLiteral = t.isLiteral := rfl
@[simp] theorem isOpening_unplaced : t.unplaced.isOpening = t.isOpening := rfl
@[simp] theorem isClosing_unplaced : t.unplaced.isClosing = t.isClosing := rfl
@[simp] theorem isUnary_unplaced : t.unplaced.isUnary = t.isUnary := rfl
@[simp] theorem level?_unplaced : t.unplaced.level? = t.level? := rfl

end Token

@[simp] theorem Diagnostic.unplaced_about (t : Token) (message : String) :
    (Diagnostic.about t message).unplaced = .about t.unplaced message := rfl

namespace Builder

@[simp] theorem stack_unplaced (b : Builder) :
    b.unplaced.stack = b.stack.map Frame.unplaced := rfl

@[simp] theorem operand_unplaced (b : Builder) :
    b.unplaced.operand = b.operand.map Expr.unplaced := rfl

theorem unplaced_complain (b : Builder) (t : Token) (message : String) :
    (b.complain t message).unplaced = b.unplaced.complain t.unplaced message := by
  simp [complain, unplaced]

/-- Finishing operators. -/
theorem reduce_unplaced (rank : Nat) (e : Expr) (stack : List Frame) :
    reduce rank e.unplaced (stack.map Frame.unplaced)
      = ((reduce rank e stack).1.unplaced, (reduce rank e stack).2.map Frame.unplaced) := by
  fun_induction reduce rank e stack with
  | case1 e op stack ih => exact ih
  | case2 e left op level stack hrank ih =>
      rw [List.map_cons, Frame.unplaced, reduce, if_pos hrank]
      exact ih
  | case3 e left op level stack hrank =>
      rw [List.map_cons, Frame.unplaced, reduce, if_neg hrank]
  | case4 e stack hunary hbinary =>
      cases stack with
      | nil => rfl
      | cons frame stack =>
          cases frame with
          | group => rfl
          | unary op => exact absurd rfl (hunary op stack)
          | binary left op level => exact absurd rfl (hbinary left op level stack)

/-- Starting an operand. -/
theorem start?_unplaced (b : Builder) (t : Token) :
    b.unplaced.start? t.unplaced = (b.start? t).map unplaced := by
  unfold start?
  rw [Token.isLiteral_unplaced, Token.isOpening_unplaced, Token.isUnary_unplaced]
  cases t.isLiteral with
  | true => rfl
  | false =>
      cases t.isOpening with
      | true => rfl
      | false => cases t.isUnary <;> rfl

/-- Taking a token after an operand. -/
theorem extend?_unplaced (floor : Nat) (b : Builder) (e : Expr) (t : Token) :
    b.unplaced.extend? floor e.unplaced t.unplaced = (b.extend? floor e t).map unplaced := by
  unfold extend?
  rw [Token.level?_unplaced, Token.isClosing_unplaced, stack_unplaced]
  cases t.level? with
  | some level =>
      simp only [reduce_unplaced, List.isEmpty_map]
      split <;> rfl
  | none =>
      simp only [reduce_unplaced]
      split
      · match reduce 0 e b.stack with
        | (inner, []) => rfl
        | (inner, .group :: stack) => rfl
        | (inner, .unary op :: stack) => rfl
        | (inner, .binary left op level :: stack) => rfl
      · rfl

/-- **A step does not look at lines.** -/
theorem step_unplaced (floor : Nat) (b : Builder) (t : Token) :
    b.unplaced.step floor t.unplaced = (b.step floor t).map unplaced := by
  unfold step
  rw [operand_unplaced, start?_unplaced, ← unplaced_complain]
  cases b.operand with
  | some e => exact extend?_unplaced floor b e t
  | none =>
      cases b.start? t with
      | some b' => rfl
      | none => exact extend?_unplaced floor (b.complain t "Expect expression.") .missing t

/-- A run does not look at lines. -/
theorem run_unplaced (floor : Nat) (b : Builder) (ts : List Token) :
    run floor b.unplaced (ts.map Token.unplaced)
      = ((run floor b ts).1.unplaced, (run floor b ts).2.map Token.unplaced) := by
  induction ts generalizing b with
  | nil => rfl
  | cons t ts ih =>
      rw [List.map_cons, run, run, step_unplaced]
      cases b.step floor t with
      | some b' => exact ih b'
      | none => rfl

/-- Closing what is unfinished. -/
theorem close_unplaced (next : Token) (e : Expr) (errors : List Diagnostic)
    (stack : List Frame) :
    close next.unplaced e.unplaced (errors.map Diagnostic.unplaced) (stack.map Frame.unplaced)
      = ((close next e errors stack).1.unplaced,
        (close next e errors stack).2.map Diagnostic.unplaced) := by
  induction stack generalizing e errors with
  | nil => rfl
  | cons frame stack ih =>
      cases frame with
      | group =>
          have hgroup := ih (.grouping e) (errors ++ [.about next "Expect ')' after expression."])
          rw [List.map_append] at hgroup
          exact hgroup
      | unary op => exact ih (.unary op e) errors
      | binary left op level => exact ih (.binary left op e) errors

theorem finish_unplaced (b : Builder) (next : Token) :
    b.unplaced.finish next.unplaced
      = ((b.finish next).1.unplaced, (b.finish next).2.map Diagnostic.unplaced) := by
  unfold finish
  rw [operand_unplaced, ← unplaced_complain]
  cases b.operand with
  | some e => exact close_unplaced next e b.errors b.stack
  | none => exact close_unplaced next .missing (b.complain next "Expect expression.").errors b.stack

end Builder

/-- **Reading does not look at lines**, for any tokens. -/
theorem read_unplaced (ts : List Token) (stop : Token) :
    read .expression (ts.map Token.unplaced) stop.unplaced
      = (read .expression ts stop).unplaced := by
  have hrun := Builder.run_unplaced 0 {} ts
  have hnew : ({} : Builder).unplaced = {} := rfl
  have hnext : ((Builder.run 0 {} ts).2.map Token.unplaced).headD stop.unplaced
      = ((Builder.run 0 {} ts).2.headD stop).unplaced := by
    cases (Builder.run 0 {} ts).2 <;> rfl
  rw [hnew] at hrun
  rw [read_expression, read_expression, hrun, hnext, Builder.finish_unplaced]
  rfl

namespace Parser

/-- What a parse gives, on no particular lines: the tree and the problems. -/
def view (r : Option Expr × Parser) : Option Expr × List Diagnostic :=
  (r.1.map Expr.unplaced, r.2.errors.map Diagnostic.unplaced)

/-- The judgement on a reading does not depend on lines. -/
theorem judge_unplaced (r : Reading) :
    judge r.unplaced = ((judge r).1.map Expr.unplaced, (judge r).2.map Diagnostic.unplaced) := by
  obtain ⟨expr, errors, rest⟩ := r
  cases errors <;> cases rest <;> rfl

theorem view_parse {p : Parser} (hp : p.errors = []) :
    view p.parse = judge (read .expression (p.ahead.map Token.unplaced) p.stop.unplaced) := by
  rw [read_unplaced, judge_unplaced, ← parse_judge hp]
  rfl

theorem isReadable_readBy (p : Parser) :
    (p.readBy .expression).1.isReadable
      = (read .expression (p.ahead.map Token.unplaced) p.stop.unplaced).expr.isReadable := by
  rw [read_unplaced]
  unfold Expr.isReadable
  rw [show (read .expression p.ahead p.stop).unplaced.expr = (p.readBy .expression).1.unplaced
    from rfl, Expr.nesting_unplaced]

/-- Parsers with the same tokens ahead, up to lines, both go too deep or none. -/
theorem parse?_congr {p q : Parser}
    (hahead : p.ahead.map Token.unplaced = q.ahead.map Token.unplaced)
    (hstop : p.stop.unplaced = q.stop.unplaced) :
    (p.parse? = .ok p.parse ∧ q.parse? = .ok q.parse) ∨
      (p.parse? = .error .tooDeep ∧ q.parse? = .error .tooDeep) := by
  have hdeep : (p.readBy .expression).1.isReadable = (q.readBy .expression).1.isReadable := by
    rw [isReadable_readBy, isReadable_readBy, hahead, hstop]
  unfold parse?
  rw [hdeep]
  by_cases hreadable : (q.readBy .expression).1.isReadable = true
  · left
    rw [if_pos hreadable, if_pos hreadable]
    exact ⟨rfl, rfl⟩
  · right
    rw [if_neg hreadable, if_neg hreadable]
    exact ⟨rfl, rfl⟩

end Parser

/-! ## Showing and evaluating -/

namespace Expr

/-- **The echo does not tell lines**, down to any depth. -/
theorem echoWithin_unplaced (n : Nat) (e : Expr) : e.unplaced.echoWithin n = e.echoWithin n := by
  induction e generalizing n with
  | literal kind text => rfl
  | grouping e ih =>
      cases n with
      | zero => rfl
      | succ n => rw [unplaced, echoWithin, echoWithin, ih]
  | unary op e ih =>
      cases n with
      | zero => rfl
      | succ n =>
          rw [unplaced, echoWithin, echoWithin, ih]
          rfl
  | binary l op r ihl ihr =>
      cases n with
      | zero => rfl
      | succ n =>
          rw [unplaced, echoWithin, echoWithin, ihl, ihr]
          rfl

theorem echo_unplaced (e : Expr) : e.unplaced.echo = e.echo := by
  induction e with
  | literal kind text => rfl
  | grouping e ih => rw [unplaced, echo, echo, ih]
  | unary op e ih =>
      rw [unplaced, echo, echo, ih]
      rfl
  | binary l op r ihl ihr =>
      rw [unplaced, echo, echo, ihl, ihr]
      rfl

/-- **The dump does not tell lines.** -/
theorem dump_unplaced (level : Int) (e : Expr) : e.unplaced.dump level = e.dump level := by
  induction e generalizing level with
  | literal kind text => rfl
  | grouping e ih => rw [unplaced, dump_grouping, dump_grouping, ih]
  | unary op e ih =>
      rw [unplaced, dump_unary, dump_unary, ih]
      rfl
  | binary l op r ihl ihr =>
      rw [unplaced, dump_binary, dump_binary, ihl, ihr]
      rfl

/-- Two trees are the same up to lines, and so is everything that is done with
them. -/
structure Alike (e e' : Expr) : Prop where
  tree : e.unplaced = e'.unplaced
  echo : e.echo = e'.echo
  echo? : e.echo? = e'.echo?
  dump : ∀ level, e.dump level = e'.dump level
  dump? : ∀ level, e.dump? level = e'.dump? level
  eval : SameOutcome e.eval e'.eval
  eval? : e.eval?.mapError Fault.unplaced = e'.eval?.mapError Fault.unplaced

/-- **Trees that are equal up to lines are shown and evaluated alike.** -/
theorem Sound.alike {e e' : Expr} (he : e.Sound) (he' : e'.Sound)
    (h : e.unplaced = e'.unplaced) : e.Alike e' where
  tree := h
  echo := by rw [← e.echo_unplaced, h, echo_unplaced]
  echo? := by rw [Expr.echo?, ← echoWithin_unplaced, h, echoWithin_unplaced, Expr.echo?]
  dump level := by rw [← e.dump_unplaced, h, dump_unplaced]
  dump? level := by
    have hheight : e.height = e'.height := by
      rw [← e.height_unplaced, h, height_unplaced]
    rw [Expr.dump?, Expr.dump?, hheight, ← e.dump_unplaced, h, dump_unplaced]
  eval := by
    refine he.eval_settles.sameOutcome he'.eval_settles ?_
    rw [← e.eval_unplaced, h, eval_unplaced]
  eval? := by rw [Expr.eval?, ← evalWithin_unplaced, h, evalWithin_unplaced, Expr.eval?]

end Expr

/-! ## Texts with the same tokens -/

/-- The texts are scanned without a problem into tokens that agree one by one in
their kinds, lexemes and literals. -/
structure SameTokens (a b : String) : Prop where
  errors_left : (scan a).errors = []
  errors_right : (scan b).errors = []
  tokens : (scan a).tokens.map Token.unplaced = (scan b).tokens.map Token.unplaced

/-- Two parsers read trees that are alike, or both record the same problems up to
lines. -/
inductive ParsedAlike (p q : Parser) : Prop
  | trees {e e' : Expr} (hp : p.parse.1 = some e ∧ p.parse.2.errors = [])
      (hq : q.parse.1 = some e' ∧ q.parse.2.errors = []) (halike : e.Alike e')
  | problems (hp : p.parse.1 = none ∧ p.parse.2.errors ≠ [])
      (hq : q.parse.1 = none ∧ q.parse.2.errors ≠ [])
      (herrors : p.parse.2.errors.map Diagnostic.unplaced
        = q.parse.2.errors.map Diagnostic.unplaced)

/-- Parsers of sound tokens that give the same view parse alike. -/
theorem ParsedAlike.of_view {p q : Parser} (hview : Parser.view p.parse = Parser.view q.parse)
    (hsound : ∀ e, p.parse.1 = some e → e.Sound) (hsound' : ∀ e, q.parse.1 = some e → e.Sound) :
    ParsedAlike p q := by
  obtain ⟨htree, herrors⟩ := Prod.mk.inj hview
  have hp := Parser.errors_parse_eq_nil_iff p
  have hq := Parser.errors_parse_eq_nil_iff q
  cases hptree : p.parse.1 with
  | some e =>
      rw [hptree] at htree
      obtain ⟨e', hqtree, he'⟩ := Option.map_eq_some_iff.mp htree.symm
      exact .trees ⟨hptree, hp.mpr ⟨e, hptree⟩⟩ ⟨hqtree, hq.mpr ⟨e', hqtree⟩⟩
        ((hsound e hptree).alike (hsound' e' hqtree) he'.symm)
  | none =>
      rw [hptree] at htree
      have hqtree := Option.map_eq_none_iff.mp htree.symm
      refine .problems ⟨hptree, ?_⟩ ⟨hqtree, ?_⟩ herrors
      · intro hnil
        obtain ⟨e, he⟩ := hp.mp hnil
        rw [he] at hptree
        cases hptree
      · intro hnil
        obtain ⟨e, he⟩ := hq.mp hnil
        rw [he] at hqtree
        cases hqtree

/-- **Texts with the same tokens are parsed alike**, up to lines. -/
theorem SameTokens.parsedAlike {a b : String} (h : SameTokens a b) :
    ∃ p q, Parser.ofTokens (scan a).tokens = .ok p ∧ Parser.ofTokens (scan b).tokens = .ok q ∧
      ParsedAlike p q ∧
      ((p.parse? = .ok p.parse ∧ q.parse? = .ok q.parse) ∨
        (p.parse? = .error .tooDeep ∧ q.parse? = .error .tooDeep)) := by
  obtain ⟨p, hp, hpfresh, hpsplit, hplexed⟩ := Parser.ofTokens_scan a
  obtain ⟨q, hq, hqfresh, hqsplit, hqlexed⟩ := Parser.ofTokens_scan b
  have htokens := h.tokens
  rw [hpsplit, hqsplit, List.map_append, List.map_append] at htokens
  obtain ⟨hahead, hlast⟩ := List.append_inj' htokens rfl
  have hstop : p.stop.unplaced = q.stop.unplaced := (List.cons.inj hlast).1
  have hview : Parser.view p.parse = Parser.view q.parse := by
    rw [Parser.view_parse hpfresh, Parser.view_parse hqfresh, hahead, hstop]
  refine ⟨p, q, hp, hq, .of_view hview ?_ ?_, Parser.parse?_congr hahead hstop⟩
  · intro e he
    exact (Parser.sound_of_parse hpfresh hplexed he).1
  · intro e he
    exact (Parser.sound_of_parse hqfresh hqlexed he).1

end LoxCalc
