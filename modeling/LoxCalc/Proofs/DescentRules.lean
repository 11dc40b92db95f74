import LoxCalc.Proofs.Descent

/-!
# Rules that call each other

Reading by recursive descent and building token by token give the same tree, the
same problems and the same rest, although the one keeps what is unfinished in calls
that have not returned and the other on a stack.

* `Builder.outcome`: what becomes of a builder over the tokens that are left;
* `Builds`: a rule has read an operand as a builder would, **whatever** is
  unfinished on the stack (`Builds.binary`, `Builds.unary`, `Builds.closed`,
  `Builds.unclosed`);
* `Descent.rule_follows`: every rule does, or it is nested beyond the limit, for
  which there have to be enough tokens (`Parser.room`);
* `Descent.rule_reader` and `Descent.parse_reader`: hence reading by a rule is
  `Parser.readBy`, and reading a whole expression is `Parser.parse`.
-/

namespace LoxCalc

/-! ## Building in a context -/

namespace Builder

/-- What comes of a builder: it takes the tokens up to the first refusal and is finished. -/
def outcome (floor : Nat) (b : Builder) (ts : List Token) (stop : Token) : Reading :=
  let (b, rest) := run floor b ts
  let (expr, errors) := b.finish (rest.headD stop)
  ⟨expr, errors, rest⟩

variable {floor : Nat} {stack : List Frame} {e : Expr} {errors : List Diagnostic}
  {t next stop : Token} {ts : List Token}

theorem outcome_cons {b b' : Builder} (h : b.step floor t = some b') :
    outcome floor b (t :: ts) stop = outcome floor b' ts stop := by
  rw [outcome, run_cons h]
  rfl

/-- A closing parenthesis closes the innermost grouping. -/
theorem outcome_closed (ht : t.isClosing = true) :
    outcome floor ⟨.group :: stack, some e, errors⟩ (t :: ts) stop
      = outcome floor ⟨stack, some (.grouping e), errors⟩ ts stop := by
  apply outcome_cons
  simp [step, extend?, (Token.not_isLiteral_of_isClosing ht).2.2.2, ht, reduce]

/-- A binary operator is taken over a stack that is open for it. -/
theorem outcome_operator {level : Level} (ht : t.level? = some level)
    (hopen : Open level.rank stack) (hfloor : stack = [] → floor ≤ level.rank) :
    outcome floor ⟨stack, some e, errors⟩ (t :: ts) stop
      = outcome floor ⟨.binary e t level :: stack, none, errors⟩ ts stop := by
  apply outcome_cons
  simpa [step, extend?, ht, reduce_of_open hopen] using hfloor

section Next

variable (hnext : ts.headD stop = next)
include hnext

/-- Builders that treat the next token alike come to the same. -/
theorem outcome_congr {b c : Builder} (hstep : b.step floor next = c.step floor next)
    (hfinish : b.finish next = c.finish next) :
    outcome floor b ts stop = outcome floor c ts stop := by
  cases ts with
  | nil =>
      obtain rfl : stop = next := hnext
      simp only [outcome, run, List.headD_nil, hfinish]
  | cons t ts =>
      obtain rfl : t = next := hnext
      cases hb : b.step floor t with
      | some b' => rw [outcome_cons hb, outcome_cons (hstep ▸ hb)]
      | none =>
          have hc : c.step floor t = none := hstep ▸ hb
          simp only [outcome, run, hb, hc, List.headD_cons, hfinish]

/-- An operator before its operand is finished at any time. -/
theorem outcome_unary (op : Token) :
    outcome floor ⟨.unary op :: stack, some e, errors⟩ ts stop
      = outcome floor ⟨stack, some (.unary op e), errors⟩ ts stop :=
  outcome_congr hnext rfl rfl

/-- A binary operator is finished before an operator that binds no tighter. -/
theorem outcome_binary (left : Expr) (op : Token) {level : Level}
    (h : ∀ l, next.level? = some l → l.rank ≤ level.rank) :
    outcome floor ⟨.binary left op level :: stack, some e, errors⟩ ts stop
      = outcome floor ⟨stack, some (.binary left op e), errors⟩ ts stop := by
  refine outcome_congr hnext ?_ rfl
  simp only [step, extend?]
  cases hlevel : next.level? with
  | some l => simp only [reduce, h l hlevel, if_true]
  | none => simp only [reduce, Nat.zero_le, if_true]

/-- A missing operand is a problem with the next token. -/
theorem outcome_missing (hliteral : next.isLiteral = false) (hopening : next.isOpening = false)
    (hunary : next.isUnary = false) :
    outcome floor ⟨stack, none, errors⟩ ts stop
      = outcome floor ⟨stack, some .missing, errors ++ [.about next "Expect expression."]⟩
          ts stop := by
  refine outcome_congr hnext ?_ rfl
  simp only [step, start?, hliteral, hopening, hunary, Bool.false_eq_true, if_false]
  rfl

/-- A grouping that is not closed is a problem with the next token. -/
theorem outcome_unclosed (hlevel : next.level? = none) (hclosing : next.isClosing = false) :
    outcome floor ⟨.group :: stack, some e, errors⟩ ts stop
      = outcome floor ⟨stack, some (.grouping e),
          errors ++ [.about next "Expect ')' after expression."]⟩ ts stop := by
  refine outcome_congr hnext ?_ rfl
  simp only [step, extend?, hlevel, hclosing, Bool.false_eq_true, if_false]

/-- With nothing unfinished an operator that is too loose ends the expression. -/
theorem outcome_refused (h : ∀ l, next.level? = some l → l.rank < floor) :
    outcome floor ⟨[], some e, errors⟩ ts stop = ⟨e, errors, ts⟩ := by
  cases ts with
  | nil => rfl
  | cons t ts =>
      obtain rfl : t = next := hnext
      have hstep : step floor ⟨[], some e, errors⟩ t = none := by
        cases hlevel : t.level? with
        | some l => simp [step, extend?, hlevel, reduce, h l hlevel]
        | none => simp [step, extend?, hlevel, reduce]
      simp [outcome, run, hstep, finish, close]

end Next

end Builder

/-! ## Rules -/

/-- What is left after `k` tokens is what the builder has to go on with, once it has `e` as an
operand: the parser has read `e` as a builder would, whatever is unfinished, if that is open for
the rank.  An operator that comes next is looser than the bound. -/
structure Builds (rank bound : Nat) (p : Parser) (e : Expr) (k : Nat) (ds : List Diagnostic) :
    Prop where
  next : ∀ l, (p.pass k ds).peek.level? = some l → l.rank < bound
  outcome : ∀ floor stack errors, Open rank stack → (stack = [] → floor ≤ rank) →
    Builder.outcome floor ⟨stack, none, errors⟩ p.ahead p.stop
      = Builder.outcome floor ⟨stack, some e, errors ++ ds⟩ (p.ahead.drop k) p.stop

namespace Builds

variable {p : Parser} {e : Expr} {k : Nat} {ds : List Diagnostic}

/-- One more operator with its right operand. -/
theorem binary {level : Level} {left right : Expr}
    (hleft : Builds level.rank (level.rank + 1) p left k ds) {op : Token} {ahead : List Token}
    (hahead : p.ahead.drop k = op :: ahead) (hop : op.level? = some level) {k' : Nat}
    {ds' : List Diagnostic}
    (hright : Builds (level.rank + 1) (level.rank + 1) (p.pass (k + 1) ds) right k' ds') :
    Builds level.rank (level.rank + 1) p (.binary left op right) (k + 1 + k') (ds ++ ds') := by
  have hafter : p.ahead.drop (k + 1) = ahead := by rw [← List.drop_drop, hahead]; rfl
  refine ⟨by rw [← Parser.pass_pass]; exact hright.next, ?_⟩
  intro floor stack errors hopen hfloor
  have hinner : Open (level.rank + 1) (.binary left op level :: stack) := Nat.lt_succ_self _
  have hloose : ∀ l, ((p.pass (k + 1) ds).pass k' ds').peek.level? = some l →
      l.rank ≤ level.rank := fun l hl => Nat.le_of_lt_succ (hright.next l hl)
  have hnext : ((p.pass (k + 1) ds).ahead.drop k').headD p.stop
      = ((p.pass (k + 1) ds).pass k' ds').peek := rfl
  calc Builder.outcome floor ⟨stack, none, errors⟩ p.ahead p.stop
      = Builder.outcome floor ⟨stack, some left, errors ++ ds⟩ (op :: ahead) p.stop := by
        rw [hleft.outcome floor stack errors hopen hfloor, hahead]
    _ = Builder.outcome floor ⟨.binary left op level :: stack, none, errors ++ ds⟩
          (p.pass (k + 1) ds).ahead p.stop := by
        rw [Builder.outcome_operator hop hopen hfloor, Parser.ahead_pass, hafter]
    _ = Builder.outcome floor ⟨.binary left op level :: stack, some right, errors ++ ds ++ ds'⟩
          ((p.pass (k + 1) ds).ahead.drop k') p.stop :=
        hright.outcome floor _ _ hinner (fun hnil => nomatch hnil)
    _ = Builder.outcome floor ⟨stack, some (.binary left op right), errors ++ (ds ++ ds')⟩
          (p.ahead.drop (k + 1 + k')) p.stop := by
        rw [Builder.outcome_binary hnext left op hloose, Parser.ahead_pass, List.drop_drop,
          List.append_assoc]

section Prefix

variable {t : Token} {ahead : List Token} (hahead : p.ahead = t :: ahead)
include hahead

/-- An operator before its operand. -/
theorem unary (he : Builds 4 4 (p.pass 1 []) e k ds) (ht : t.isUnary = true) :
    Builds 4 4 p (.unary t e) (1 + k) ds := by
  refine ⟨fun l _ => l.rank_lt, ?_⟩
  intro floor stack errors hopen hfloor
  have hnext : ((p.pass 1 []).ahead.drop k).headD p.stop = ((p.pass 1 []).pass k ds).peek := rfl
  calc Builder.outcome floor ⟨stack, none, errors⟩ p.ahead p.stop
      = Builder.outcome floor ⟨.unary t :: stack, none, errors⟩ (p.pass 1 []).ahead p.stop := by
        rw [hahead, Builder.outcome_cons (Builder.step_unary ht), Parser.ahead_pass_one hahead]
    _ = Builder.outcome floor ⟨.unary t :: stack, some e, errors ++ ds⟩
          ((p.pass 1 []).ahead.drop k) p.stop :=
        he.outcome floor _ _ (Nat.le_refl 4) (fun hnil => nomatch hnil)
    _ = Builder.outcome floor ⟨stack, some (.unary t e), errors ++ ds⟩
          (p.ahead.drop (1 + k)) p.stop := by
        rw [Builder.outcome_unary hnext, Parser.ahead_pass, List.drop_drop]

variable (he : Builds 0 0 (p.pass 1 []) e k ds) (ht : t.isOpening = true)
include he ht

/-- An expression after an opening parenthesis, over whatever is unfinished. -/
theorem opened (floor : Nat) (stack : List Frame) (errors : List Diagnostic) :
    Builder.outcome floor ⟨stack, none, errors⟩ p.ahead p.stop
      = Builder.outcome floor ⟨.group :: stack, some e, errors ++ ds⟩ (p.ahead.drop (1 + k))
          p.stop := by
  have hinner := he.outcome floor (.group :: stack) errors trivial (fun hnil => nomatch hnil)
  rw [Parser.stop_pass, Parser.ahead_pass_one hahead] at hinner
  rw [hahead, Builder.outcome_cons (Builder.step_opening ht), hinner, Nat.add_comm,
    List.drop_succ_cons]

/-- A grouping with its closing parenthesis. -/
theorem closed {u : Token} {rest : List Token} (hrest : p.ahead.drop (1 + k) = u :: rest)
    (hu : u.isClosing = true) : Builds 4 4 p (.grouping e) (1 + k + 1) ds := by
  refine ⟨fun l _ => l.rank_lt, ?_⟩
  intro floor stack errors hopen hfloor
  have hafter : p.ahead.drop (1 + k + 1) = rest := by
    rw [← List.drop_drop, hrest]
    rfl
  rw [he.opened hahead ht, hrest, Builder.outcome_closed hu, hafter]

/-- A grouping whose closing parenthesis is missing. -/
theorem unclosed (hu : (p.pass (1 + k) ds).peek.isClosing = false) :
    Builds 4 4 p (.grouping e) (1 + k)
      (ds ++ [.about (p.pass (1 + k) ds).peek "Expect ')' after expression."]) := by
  refine ⟨fun l _ => l.rank_lt, ?_⟩
  intro floor stack errors hopen hfloor
  have hnext : (p.ahead.drop (1 + k)).headD p.stop = (p.pass (1 + k) ds).peek := rfl
  have hlevel : (p.pass (1 + k) ds).peek.level? = none := by
    rw [← List.nil_append ds, ← Parser.pass_pass]
    exact Option.eq_none_iff_forall_ne_some.mpr (fun l hl => Nat.not_lt_zero _ (he.next l hl))
  rw [he.opened hahead ht, Builder.outcome_unclosed hnext hlevel hu, List.append_assoc]

end Prefix

end Builds

/-- How many rules are called in turn before the next token is passed. -/
def Rule.depth : Rule → Nat
  | expression => 7
  | equality => 6
  | comparison => 5
  | term => 4
  | factor => 3
  | unary => 2
  | primary => 1

theorem Rule.depth_pos (rule : Rule) : 0 < rule.depth := by
  cases rule <;> decide

theorem Rule.depth_le (rule : Rule) : rule.depth ≤ 7 := by
  cases rule <;> decide

/-- How deeply rules can nest on the tokens ahead. -/
def Parser.room (p : Parser) (rule : Rule) : Nat :=
  7 * p.ahead.length + rule.depth

/-- There is less room for any rule once a token has been passed. -/
theorem Parser.room_pass_lt {p : Parser} (hp : p.ahead ≠ []) {m : Nat} (hm : 0 < m)
    (ds : List Diagnostic) (inner rule : Rule) : (p.pass m ds).room inner < p.room rule := by
  have hlength := List.length_pos_iff.mpr hp
  have hinner := inner.depth_le
  have hrule := rule.depth_pos
  rw [room, room, ahead_pass, List.length_drop]
  omega

/-- The rule of the operators of a level. -/
def Level.rule : Level → Rule
  | equality => .equality
  | comparison => .comparison
  | term => .term
  | factor => .factor

/-- The rule of the operands between operators of a level. -/
def Level.operandRule : Level → Rule
  | equality => .comparison
  | comparison => .term
  | term => .factor
  | factor => .unary

theorem Level.eq_of_rank_eq {l l' : Level} (h : l.rank = l'.rank) : l = l' := by
  cases l <;> cases l' <;> revert h <;> decide

theorem Level.floor_rule (level : Level) : level.rule.floor = level.rank := by
  cases level <;> rfl

theorem Level.floor_operandRule (level : Level) : level.operandRule.floor = level.rank + 1 := by
  cases level <;> rfl

theorem Level.depth_rule (level : Level) : level.rule.depth = level.operandRule.depth + 1 := by
  cases level <;> rfl

namespace Descent

/-- The reading gives what a builder reads by the rule, or it is nested beyond the limit `n`. -/
def Follows (n : Nat) (rule : Rule) (reading : Descent Expr) (p : Parser) : Prop :=
  (∃ e k ds, reading.run p.reader = .ok e (p.pass k ds).reader ∧
    Builds rule.floor rule.floor p e k ds) ∨
  (∃ k ds, reading.run p.reader = .error .tooDeep (p.pass k ds).reader ∧ n < p.room rule)

/-- A reading that starts behind a token, seen from before that token. -/
theorem Follows.behind {n : Nat} {inner : Rule} {reading : Descent Expr} {p : Parser} {m : Nat}
    {ds : List Diagnostic} (h : Follows n inner reading (p.pass m ds)) (hp : p.ahead ≠ [])
    (hm : 0 < m) (rule : Rule) :
    (∃ e k ds', reading.run (p.pass m ds).reader = .ok e (p.pass (m + k) (ds ++ ds')).reader ∧
      Builds inner.floor inner.floor (p.pass m ds) e k ds') ∨
    (∃ k ds', reading.run (p.pass m ds).reader = .error .tooDeep (p.pass k ds').reader ∧
      n + 1 < p.room rule) := by
  rcases h with ⟨e, k, ds', hrun, he⟩ | ⟨k, ds', hrun, hdeep⟩
  · rw [Parser.pass_pass] at hrun
    exact .inl ⟨e, k, ds', hrun, he⟩
  · rw [Parser.pass_pass] at hrun
    have hroom := Parser.room_pass_lt hp hm ds inner rule
    exact .inr ⟨m + k, ds ++ ds', hrun, by omega⟩

/-- The next token is passed if it is of one of these kinds. -/
theorem accept_cases (p : Parser) {kinds : List Kind} (heof : .eof ∉ kinds) :
    (∃ t ahead, p.ahead = t :: ahead ∧ t.kind ∈ kinds ∧ p.accept kinds = (true, p.pass 1 [])) ∨
      p.peek.kind ∉ kinds ∧ p.accept kinds = (false, p) := by
  have hany : kinds.any p.check = true ↔ p.peek.kind ∈ kinds := by
    rw [List.any_eq_true]
    constructor
    · rintro ⟨kind, hmem, hcheck⟩
      rwa [(p.check_iff (ne_of_mem_of_not_mem hmem heof)).mp hcheck]
    · exact fun hmem => ⟨_, hmem, (p.check_iff (ne_of_mem_of_not_mem hmem heof)).mpr rfl⟩
  rw [← Parser.move_eq_pass, Parser.accept]
  by_cases hkind : p.peek.kind ∈ kinds
  · obtain ⟨ahead, hahead⟩ := p.exists_ahead_eq (ne_of_mem_of_not_mem hkind heof)
    exact .inl ⟨p.peek, ahead, hahead, hkind, if_pos (hany.mpr hkind)⟩
  · exact .inr ⟨hkind, if_neg (fun h => hkind (hany.mp h))⟩

/-- The next token is passed if it is of the kind that is due, or else complained of. -/
theorem expect_cases (p : Parser) {kind : Kind} (heof : kind ≠ .eof) (message : String) :
    (∃ t ahead, p.ahead = t :: ahead ∧ t.kind = kind ∧
      p.expect kind message = (kind, p.pass 1 [])) ∨
    p.peek.kind ≠ kind ∧
      p.expect kind message = (.error, p.pass 0 [.about p.peek message]) := by
  rw [← Parser.move_eq_pass, ← Parser.complain_eq_pass, Parser.expect]
  by_cases hkind : p.peek.kind = kind
  · obtain ⟨ahead, hahead⟩ := p.exists_ahead_eq (hkind ▸ heof)
    exact .inl ⟨p.peek, ahead, hahead, hkind, by rw [if_pos ((p.check_iff heof).mpr hkind), hkind]⟩
  · exact .inr ⟨hkind, if_neg (fun h => hkind ((p.check_iff heof).mp h))⟩

/-- Operators and their right operands are added to the left operand one by one.  Each of them passes
a token, so that they come to an end. -/
theorem chain_follows {n : Nat} {level : Level} {operand : Descent Expr}
    (hoperand : ∀ p, Follows n level.operandRule operand p) (fuel : Nat) {p : Parser} {left : Expr}
    {k : Nat} {ds : List Diagnostic} (hleft : Builds level.rank (level.rank + 1) p left k ds)
    (hfuel : (p.ahead.drop k).length < fuel) :
    (∃ e k' ds', (chain operand level.operators fuel left).run (p.pass k ds).reader
      = .ok e (p.pass k' ds').reader ∧ Builds level.rank level.rank p e k' ds') ∨
    (∃ k' ds', (chain operand level.operators fuel left).run (p.pass k ds).reader
      = .error .tooDeep (p.pass k' ds').reader ∧ n + 1 < p.room level.rule) := by
  induction fuel generalizing left k ds with
  | zero => omega
  | succ fuel ih =>
      simp only [chain, EStateM.run_bind, accept_reader]
      have heof : .eof ∉ level.operators := by cases level <;> decide
      rcases accept_cases (p.pass k ds) heof with ⟨op, ahead, hahead, hop, haccept⟩ | ⟨hop, haccept⟩
      · rw [Parser.pass_pass, List.append_nil] at haccept
        have hprevious : (p.pass (k + 1) ds).previous = op := by
          have hmove := Parser.previous_move_one hahead
          rwa [Parser.move_eq_pass, Parser.pass_pass, List.append_nil] at hmove
        have hlength : p.ahead.length - k = ahead.length + 1 := by
          rw [← List.length_drop, ← Parser.ahead_pass p k ds, hahead, List.length_cons]
        have hsome : p.ahead ≠ [] := List.ne_nil_of_length_pos (by omega)
        simp only [haccept, if_true, EStateM.run_bind, previous_reader, hprevious]
        rcases (hoperand (p.pass (k + 1) ds)).behind hsome (Nat.succ_pos k) level.rule with
          ⟨right, k', ds', hrun, hright⟩ | ⟨k', ds', hrun, hdeep⟩
        · rw [Level.floor_operandRule] at hright
          simp only [hrun]
          refine ih (hleft.binary hahead (Token.level?_eq_some_iff.mpr hop) hright) ?_
          rw [List.length_drop] at hfuel ⊢
          omega
        · simp only [hrun]
          exact .inr ⟨k', ds', rfl, hdeep⟩
      · refine .inl ⟨left, k, ds, by simp only [haccept]; rfl, ?_, hleft.outcome⟩
        intro l hl
        -- the operator is none of this level, so it is looser
        have hle : l.rank ≤ level.rank := Nat.le_of_lt_succ (hleft.next l hl)
        refine Nat.lt_of_le_of_ne hle (fun hrank => hop ?_)
        rw [← Level.eq_of_rank_eq hrank]
        exact Token.level?_eq_some_iff.mp hl

/-- Operands with operators of a level between them are read by the rule of the level. -/
theorem leftAssoc_follows {n : Nat} (level : Level) {operand : Descent Expr}
    (hoperand : ∀ p, Follows n level.operandRule operand p) (p : Parser) :
    Follows (n + 1) level.rule (leftAssoc operand level.operators) p := by
  unfold Follows
  simp only [leftAssoc, EStateM.run_bind]
  rcases hoperand p with ⟨first, k, ds, hrun, hfirst⟩ | ⟨k, ds, hrun, hdeep⟩
  · rw [Level.floor_operandRule] at hfirst
    have hlength : (p.ahead.drop k).length < (p.pass k ds).reader.tokens.length + 1 := by
      simp only [Parser.reader, Parser.tokens, List.length_append, List.length_cons,
        Parser.ahead_pass]
      omega
    have hleft : Builds level.rank (level.rank + 1) p first k ds :=
      ⟨hfirst.next, fun floor stack errors hopen hfloor =>
        hfirst.outcome floor stack errors (hopen.mono (Nat.le_succ _))
          (fun hnil => Nat.le_succ_of_le (hfloor hnil))⟩
    simp only [hrun, EStateM.run_get, Level.floor_rule]
    exact chain_follows hoperand _ hleft hlength
  · simp only [hrun]
    refine .inr ⟨k, ds, rfl, ?_⟩
    simp only [Parser.room, level.depth_rule] at hdeep ⊢
    omega

/-- A unary operator before its operand. -/
theorem unary_follows {n : Nat} (hunary : ∀ p, Follows n .unary (rule n .unary) p)
    (hprimary : ∀ p, p.peek.isUnary = false → Follows n .primary (rule n .primary) p) (p : Parser) :
    Follows (n + 1) .unary (rule (n + 1) .unary) p := by
  unfold Follows
  simp only [rule, EStateM.run_bind, accept_reader]
  have heof : .eof ∉ unaryOperators := by decide
  rcases accept_cases p heof with ⟨op, ahead, hahead, hop, haccept⟩ | ⟨hop, haccept⟩
  · have hsome : p.ahead ≠ [] := by simp [hahead]
    simp only [haccept, if_true, EStateM.run_bind, previous_reader,
      Parser.previous_pass_one hahead]
    rcases (hunary (p.pass 1 [])).behind hsome Nat.one_pos .unary with
      ⟨e, k, ds, hrun, he⟩ | ⟨k, ds, hrun, hdeep⟩
    · simp only [hrun, List.nil_append]
      exact .inl ⟨_, _, _, rfl, he.unary hahead (Token.isUnary_iff.mpr hop)⟩
    · simp only [hrun]
      exact .inr ⟨k, ds, rfl, hdeep⟩
  · have hnot : p.peek.isUnary = false :=
      Bool.eq_false_iff.mpr (fun h => hop (Token.isUnary_iff.mp h))
    simp only [haccept, Bool.false_eq_true, if_false]
    rcases hprimary p hnot with hread | ⟨k, ds, hrun, hdeep⟩
    · exact .inl hread
    · refine .inr ⟨k, ds, hrun, ?_⟩
      simp only [Parser.room, Rule.depth] at hdeep ⊢
      omega

/-- Nothing that a primary expression can start with. -/
theorem primary_missing {n : Nat} {p : Parser} (hliteral : p.peek.kind ∉ literalKinds)
    (hopening : p.peek.kind ∉ [Kind.symbol .leftParen]) :
    (rule (n + 1) .primary).run p.reader
      = .ok .missing (p.pass 0 [.about p.peek "Expect expression."]).reader := by
  have hrefused : ∀ kinds, .eof ∉ kinds → p.peek.kind ∉ kinds → p.accept kinds = (false, p) := by
    intro kinds heof hkind
    rcases accept_cases p heof with ⟨t, ahead, hahead, ht, -⟩ | ⟨-, haccept⟩
    · exact absurd (Parser.peek_of_ahead_eq hahead ▸ ht) hkind
    · exact haccept
  simp only [rule, EStateM.run_bind, accept_reader, hrefused _ (by decide) hliteral,
    hrefused _ (by decide) hopening, Bool.false_eq_true, if_false, peek_reader, complain_reader,
    Parser.complain_eq_pass]
  rfl

/-- A literal, a grouping, or nothing that an expression can start with. -/
theorem primary_follows {n : Nat} (hinner : ∀ p, Follows n .expression (rule n .expression) p)
    (p : Parser) (hunary : p.peek.isUnary = false) :
    Follows (n + 1) .primary (rule (n + 1) .primary) p := by
  unfold Follows
  have hliterals : .eof ∉ literalKinds := by decide
  have hparen : .eof ∉ [Kind.symbol .leftParen] := by decide
  rcases accept_cases p hliterals with ⟨t, ahead, hahead, ht, haccept⟩ | ⟨hliteral, hrefused⟩
  · simp only [rule, EStateM.run_bind, accept_reader, haccept, if_true, previous_reader,
      Parser.previous_pass_one hahead]
    refine .inl ⟨_, 1, [], rfl, fun l _ => l.rank_lt, ?_⟩
    intro floor stack errors hopen hfloor
    rw [hahead, Builder.outcome_cons (Builder.step_literal (Token.isLiteral_iff.mpr ht)),
      List.append_nil]
    rfl
  rcases accept_cases p hparen with ⟨t, ahead, hahead, ht, haccept⟩ | ⟨hopening, -⟩
  · have hsome : p.ahead ≠ [] := by simp [hahead]
    have htopen : t.isOpening = true := Token.isOpening_iff.mpr (List.mem_singleton.mp ht)
    simp only [rule, EStateM.run_bind, accept_reader, hrefused, haccept, Bool.false_eq_true,
      if_false, if_true]
    rcases (hinner (p.pass 1 [])).behind hsome Nat.one_pos .primary with
      ⟨e, k, ds, hrun, he⟩ | ⟨k, ds, hrun, hdeep⟩
    · simp only [hrun, List.nil_append, expect_reader]
      have hclosing : Kind.symbol .rightParen ≠ .eof := by decide
      rcases expect_cases (p.pass (1 + k) ds) hclosing "Expect ')' after expression." with
        ⟨u, rest, hafter, hu, hexpect⟩ | ⟨hu, hexpect⟩
      · simp only [hexpect, Parser.pass_pass, List.append_nil]
        exact .inl ⟨_, _, _, rfl, he.closed hahead htopen hafter (Token.isClosing_iff.mpr hu)⟩
      · have hopen : (p.pass (1 + k) ds).peek.isClosing = false :=
          Bool.eq_false_iff.mpr (fun h => hu (Token.isClosing_iff.mp h))
        simp only [hexpect, Parser.pass_pass, Nat.add_zero]
        exact .inl ⟨_, _, _, rfl, he.unclosed hahead htopen hopen⟩
    · simp only [hrun]
      exact .inr ⟨k, ds, rfl, hdeep⟩
  · refine .inl ⟨_, _, _, primary_missing hliteral hopening, fun l _ => l.rank_lt, ?_⟩
    intro floor stack errors hopen hfloor
    refine Builder.outcome_missing rfl ?_ ?_ hunary
    · exact Bool.eq_false_iff.mpr (fun h => hliteral (Token.isLiteral_iff.mp h))
    · exact Bool.eq_false_iff.mpr
        (fun h => hopening (List.mem_singleton.mpr (Token.isOpening_iff.mp h)))

/-- Every rule reads as the builder does.  A primary expression is asked for only where no operator
stands. -/
theorem rule_follows (n : Nat) (r : Rule) (p : Parser)
    (hunary : r = .primary → p.peek.isUnary = false) : Follows n r (rule n r) p := by
  induction n generalizing r p with
  | zero =>
      refine .inr ⟨0, [], ?_, ?_⟩
      · rw [Parser.pass_zero_nil, rule]
        rfl
      · exact Nat.add_pos_right _ r.depth_pos
  | succ n ih =>
      have hall : ∀ r, r ≠ .primary → ∀ p, Follows n r (rule n r) p :=
        fun r hr p => ih r p (fun h => absurd h hr)
      cases r with
      | expression =>
          rcases hall .equality nofun p with ⟨e, k, ds, hrun, he⟩ | ⟨k, ds, hrun, hdeep⟩
          · exact .inl ⟨e, k, ds, hrun, he⟩
          · refine .inr ⟨k, ds, hrun, ?_⟩
            simp only [Parser.room, Rule.depth] at hdeep ⊢
            omega
      | equality => exact leftAssoc_follows .equality (hall .comparison nofun) p
      | comparison => exact leftAssoc_follows .comparison (hall .term nofun) p
      | term => exact leftAssoc_follows .term (hall .factor nofun) p
      | factor => exact leftAssoc_follows .factor (hall .unary nofun) p
      | unary => exact unary_follows (hall .unary nofun) (fun p hp => ih .primary p (fun _ => hp)) p
      | primary => exact primary_follows (hall .expression nofun) p (hunary rfl)

/-- Reading by a rule is what the parser does, or it is nested beyond the limit. -/
theorem rule_reader (n : Nat) (r : Rule) (p : Parser) :
    (rule n r).run p.reader = .ok (p.readBy r).1 (p.readBy r).2.reader ∨
      ∃ k ds, (rule n r).run p.reader = .error .tooDeep (p.pass k ds).reader ∧ n < p.room r := by
  by_cases hunary : r = .primary ∧ p.peek.isUnary = true
  · -- the one rule that does not take an operator where an operand is due
    obtain ⟨rfl, hop⟩ := hunary
    cases n with
    | zero => exact .inr ⟨0, [], by rw [Parser.pass_zero_nil, rule]; rfl, Nat.succ_pos _⟩
    | succ n =>
        obtain ⟨hliteral, hopening, -⟩ := Token.not_isLiteral_of_isUnary hop
        have hread : read .primary p.ahead p.stop
            = ⟨.missing, [.about p.peek "Expect expression."], p.ahead.drop 0⟩ := by
          rw [read, if_pos ⟨rfl, p.isUnary_peek ▸ hop⟩]
          rfl
        rw [Parser.readBy_of_read hread, primary_missing]
        · exact .inl rfl
        · exact fun h => Bool.eq_false_iff.mp hliteral (Token.isLiteral_iff.mpr h)
        · exact fun h =>
            Bool.eq_false_iff.mp hopening (Token.isOpening_iff.mpr (List.mem_singleton.mp h))
  · have hplain : r = .primary → p.peek.isUnary = false :=
      fun hr => Bool.eq_false_iff.mpr (fun hop => hunary ⟨hr, hop⟩)
    rcases rule_follows n r p hplain with ⟨e, k, ds, hrun, he⟩ | hdeep
    · have hread : read r p.ahead p.stop = ⟨e, ds, p.ahead.drop k⟩ := by
        rw [read, if_neg (p.isUnary_peek ▸ hunary)]
        calc Builder.outcome r.floor {} p.ahead p.stop
            = Builder.outcome r.floor ⟨[], some e, [] ++ ds⟩ (p.ahead.drop k) p.stop :=
              he.outcome r.floor [] [] trivial (fun _ => Nat.le_refl _)
          _ = ⟨e, ds, p.ahead.drop k⟩ := Builder.outcome_refused rfl he.next
      rw [hrun, Parser.readBy_of_read hread]
      exact .inl rfl
    · exact .inr hdeep

/-- Reading a whole expression is what the parser does, or it is nested beyond the limit. -/
theorem parse_reader (n : Nat) (p : Parser) :
    (parse n).run p.reader = .ok p.parse.1 p.parse.2.reader ∨
      ∃ k ds, (parse n).run p.reader = .error .tooDeep (p.pass k ds).reader ∧
        n < p.room .expression := by
  simp only [parse, EStateM.run_bind]
  rcases rule_reader n .expression p with hrun | ⟨k, ds, hrun, hdeep⟩
  · simp only [hrun, atEnd_reader, EStateM.run_get, Parser.parse]
    refine .inl ?_
    generalize (p.readBy .expression).2 = q
    by_cases hrest : (q.errors.isEmpty && !q.atEnd) = true
    · have hrest' : (q.reader.errors.isEmpty && !q.atEnd) = true := hrest
      simp only [hrest, hrest', if_true, EStateM.run_bind, peek_reader, complain_reader,
        EStateM.run_get]
      rfl
    · have hrest' : ¬(q.reader.errors.isEmpty && !q.atEnd) = true := hrest
      simp only [hrest, hrest', Bool.false_eq_true, if_false]
      rfl
  · simp only [hrun]
    exact .inr ⟨k, ds, rfl, hdeep⟩

end Descent

end LoxCalc
