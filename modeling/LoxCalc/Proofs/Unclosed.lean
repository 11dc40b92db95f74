import LoxCalc.Proofs.ViablePrefix

/-!
# Dropped parentheses

Take the closing parentheses away from the end of an expression.  What is left
is taken without a problem, and then the groupings that are still open are
closed one after the other, exactly as the parentheses would have closed them,
except that each of them costs a problem.

* `Builder.step_of_isClosing`: what a closing parenthesis does to the builder;
* `Builder.Takes.finish_closings`: finishing does the same, at the cost of one
  problem for each parenthesis.

`unclosed_costs_one_each` says this of the two parses.
-/

namespace LoxCalc

/-! ## Tokens of an expression -/

/-- No end mark is part of an expression. -/
theorem Derivation.isEnd_of_mem_yield {c : Category} (d : Derivation c) :
    ∀ t ∈ d.yield, t.isEnd = false := by
  have hkind : ∀ {t : Token}, t.kind ≠ .eof → t.isEnd = false := by
    intro t ht
    simpa [Token.isEnd] using ht
  induction d with
  | expression d ih => exact ih
  | single d ih => exact ih
  | @join level left op hop right ihl ihr =>
      have hend : op.isEnd = false := by
        apply hkind
        intro heof
        rw [heof] at hop
        cases level <;> simp [Level.operators] at hop
      simp only [yield, List.mem_append, List.mem_cons]
      rintro t (ht | rfl | ht)
      · exact ihl t ht
      · exact hend
      · exact ihr t ht
  | plain d ih => exact ih
  | prefixed op hop right ih =>
      have hend : op.isEnd = false := by
        apply hkind
        intro heof
        simp [heof, unaryOperators] at hop
      simp only [yield, List.mem_cons]
      rintro t (rfl | ht)
      · exact hend
      · exact ih t ht
  | literal t ht =>
      have hend : t.isEnd = false := by
        apply hkind
        intro heof
        simp [heof, literalKinds] at ht
      simpa [yield] using hend
  | group opening ho inner closing hc ih =>
      have hopening : opening.isEnd = false := hkind (by simp [ho])
      have hclosing : closing.isEnd = false := hkind (by simp [hc])
      simp only [yield, List.cons_append, List.mem_cons, List.mem_append, List.not_mem_nil,
        or_false]
      rintro t (rfl | ht | rfl)
      · exact hopening
      · exact ih t ht
      · exact hclosing

namespace Builder

variable {w closings : List Token} {b b' : Builder} {t : Token} {e : Expr}

/-! ## What a closing parenthesis does -/

/-- A closing parenthesis that costs no problem finishes the innermost grouping. -/
theorem step_of_isClosing (ht : t.isClosing = true) (hstep : b.step 0 t = some b')
    (herrors : b'.errors = b.errors) :
    ∃ e inner stack, b.operand = some e ∧ reduce 0 e b.stack = (inner, .group :: stack) ∧
      b' = ⟨stack, some (.grouping inner), b.errors⟩ := by
  obtain ⟨hliteral, hopening, hunary, hlevel⟩ := Token.not_isLiteral_of_isClosing ht
  cases hoperand : b.operand with
  | none =>
      -- a parenthesis starts no operand, so the missing one is a problem
      have hstart : b.start? t = none := by simp [start?, hliteral, hopening, hunary]
      rw [step, hoperand, hstart] at hstep
      have hmore : b'.errors = b.errors ++ [.about t "Expect expression."] :=
        errors_extend? hstep
      simp [hmore] at herrors
  | some e =>
      rw [step, hoperand] at hstep
      simp only [extend?, hlevel, ht, if_true] at hstep
      split at hstep
      · next inner stack hreduce =>
        cases hstep
        exact ⟨e, inner, stack, rfl, hreduce, rfl⟩
      · cases hstep

/-- Problems met before closing come before those that closing costs, and make no
difference to them. -/
theorem close_append (next : Token) (e : Expr) (before errors : List Diagnostic)
    (stack : List Frame) :
    close next e (before ++ errors) stack
      = ((close next e errors stack).1, before ++ (close next e errors stack).2) := by
  induction stack generalizing e errors with
  | nil => rfl
  | cons frame stack ih =>
      cases frame with
      | group =>
          rw [close, close, List.append_assoc]
          exact ih _ _
      | unary op => exact ih _ errors
      | binary left op level => exact ih _ errors

/-- Finishing before a closing parenthesis instead of taking it gives the same tree
and costs one problem more. -/
theorem finish_of_isClosing (ht : t.isClosing = true) (hstep : b.step 0 t = some b')
    (herrors : b'.errors = b.errors) (hb : b.errors = []) (next : Token) :
    b.finish next = ((b'.finish next).1,
      .about next "Expect ')' after expression." :: (b'.finish next).2) := by
  obtain ⟨e, inner, stack, hoperand, hreduce, rfl⟩ := step_of_isClosing ht hstep herrors
  have hfinish : b.finish next
      = close next (.grouping inner) [.about next "Expect ')' after expression."] stack := by
    rw [finish, hoperand]
    simp only
    rw [← close_reduce next 0, hreduce, hb]
    rfl
  have hcost := close_append next (.grouping inner)
    [.about next "Expect ')' after expression."] [] stack
  rw [List.append_nil] at hcost
  rw [hfinish, hcost, hb]
  rfl

/-! ## Viable tokens are taken -/

/-- Tokens that some sentence begins with are taken without a problem. -/
theorem exists_takes (h : Viable w) : ∃ b, Takes w b := by
  rcases takes_or_offends w with hb | ⟨u, t, rest, b, rfl, hb, ht⟩
  · exact hb
  · have hviable : Viable (u ++ [t]) := by
      apply Viable.of_append (v := rest)
      simpa using h
    exact absurd hviable (hb.not_viable ht)

/-- One more token that keeps the tokens viable is taken without a problem. -/
theorem Takes.exists_step (hb : Takes w b) (h : Viable (w ++ [t])) :
    ∃ b', b.step 0 t = some b' ∧ b'.errors = b.errors := by
  by_contra hnone
  apply hb.not_viable _ h
  intro b' hstep herrors
  exact hnone ⟨b', hstep, herrors⟩

/-- **Finishing closes what the dropped parentheses would have closed**, at the
cost of one problem for each of them. -/
theorem Takes.finish_closings (hb : Takes w b) (hclosings : ∀ t ∈ closings, t.isClosing = true)
    (h : Derives .expression (w ++ closings) e) (next : Token) :
    b.finish next
      = (e, List.replicate closings.length (.about next "Expect ')' after expression.")) := by
  induction closings generalizing w b with
  | nil =>
      rw [List.append_nil] at h
      have hread := read_of_derives h next
      rw [read_expression, hb.1] at hread
      exact Prod.ext (congrArg Reading.expr hread) (congrArg Reading.errors hread)
  | cons t closings ih =>
      rw [← List.singleton_append, ← List.append_assoc] at h
      have hviable : Viable (w ++ [t]) := ⟨closings, e, h⟩
      obtain ⟨b', hstep, herrors⟩ := hb.exists_step hviable
      have hrest := ih (hb.concat hstep herrors)
        (fun u hu => hclosings u (List.mem_cons_of_mem t hu)) h
      rw [finish_of_isClosing (hclosings t List.mem_cons_self) hstep herrors hb.2, hrest]
      rfl

end Builder

/-- Reading what is left of an expression after its last parentheses are dropped. -/
theorem read_of_derives_closings {w closings : List Token} {e : Expr}
    (hclosings : ∀ t ∈ closings, t.isClosing = true)
    (h : Derives .expression (w ++ closings) e) (stop : Token) :
    read .expression w stop = ⟨e,
      List.replicate closings.length (.about stop "Expect ')' after expression."), []⟩ := by
  obtain ⟨b, hb⟩ := Builder.exists_takes (w := w) ⟨closings, e, h⟩
  have hfinish := hb.finish_closings hclosings h stop
  rw [read_expression, hb.1]
  simp only [List.headD_nil, hfinish]

/-- **Dropping closing parentheses costs exactly one problem each.**  Take any
tokens that are an expression once some closing parentheses are put after them.
Parsing the tokens without these parentheses records exactly one problem for each
of them, all about the end mark, and the tree that is read is the very tree of
the complete expression. -/
theorem unclosed_costs_one_each {w closings : List Token} {e : Expr} {stop : Token}
    (hclosings : ∀ t ∈ closings, t.kind = .symbol .rightParen)
    (h : Derives .expression (w ++ closings) e) (hstop : stop.kind = .eof) :
    ∃ p q, Parser.ofTokens (w ++ [stop]) = .ok p ∧
      Parser.ofTokens (w ++ closings ++ [stop]) = .ok q ∧
      p.parse.2.errors = List.replicate closings.length
        ⟨"Expect ')' after expression.", some stop, some stop.line⟩ ∧
      (∀ r, p.parse? = .ok r → r = p.parse) ∧
      (p.readBy .expression).1 = e ∧ (q.readBy .expression).1 = e ∧ q.parse.1 = some e ∧
      (p.readBy? .expression).map Prod.fst = (q.readBy? .expression).map Prod.fst := by
  have hnoend : ∀ t ∈ w ++ closings, t.isEnd = false := by
    obtain ⟨d, hyield, -⟩ := h
    rw [← hyield]
    exact d.isEnd_of_mem_yield
  have hend : stop.isEnd = true := by simp [Token.isEnd, hstop]
  obtain ⟨p, hp, -, hperrors, hpahead, hpstop⟩ :=
    Parser.ofTokens_concat (fun t ht => hnoend t (List.mem_append_left _ ht)) hend
  obtain ⟨q, hq, -, hqerrors, hqahead, -⟩ := Parser.ofTokens_concat hnoend hend
  have hread : read .expression p.ahead p.stop = ⟨e,
      List.replicate closings.length (.about stop "Expect ')' after expression."), []⟩ := by
    rw [hpahead, hpstop]
    exact read_of_derives_closings (fun t ht => Token.isClosing_iff.mpr (hclosings t ht)) h stop
  have hptree : (p.readBy .expression).1 = e := congrArg Reading.expr hread
  have hqtree : (q.readBy .expression).1 = e := by
    rw [← hqahead] at h
    exact congrArg Reading.expr (read_of_derives h q.stop)
  refine ⟨p, q, hp, hq, ?_, fun _ => Parser.eq_parse_of_parse?_ok, hptree, hqtree, ?_, ?_⟩
  · have hjudge := congrArg Prod.snd (Parser.parse_judge hperrors)
    rw [hread] at hjudge
    exact hjudge.trans (Parser.errors_judge_of_rest_nil _ _)
  · rw [Parser.parse_eq_some_iff hqerrors, hqahead]
    exact h
  · simp only [Parser.readBy?, hptree, hqtree]
    split <;> rfl

/-- The tokens of `!((1 == 2`, in which two parentheses are not closed. -/
def unclosedTokens : List Token :=
  [⟨.symbol .bang, "!", 1, none⟩, ⟨.symbol .leftParen, "(", 1, none⟩,
    ⟨.symbol .leftParen, "(", 1, none⟩, ⟨.number, "1", 1, some "1"⟩,
    ⟨.symbol .equalEqual, "==", 2, none⟩, ⟨.number, "2", 2, some "2"⟩]

/-- The tree of the complete expression. -/
def unclosedTree : Expr :=
  .unary ⟨.symbol .bang, "!", 1, none⟩ (.grouping (.grouping
    (.binary (.literal .number (some "1")) ⟨.symbol .equalEqual, "==", 2, none⟩
      (.literal .number (some "2")))))

/-- Two parentheses on a third line would have closed both groupings. -/
theorem unclosed_costs_one_each_pair :
    Derives .expression (unclosedTokens ++ List.replicate 2 ⟨.symbol .rightParen, ")", 3, none⟩)
      unclosedTree ∧
      ∃ p, Parser.ofTokens (unclosedTokens ++ [.endOfSource 3]) = .ok p ∧
        p.parse.2.errors.map Diagnostic.render = List.replicate 2
          "3: at end - Expect ')' after expression." ∧
        (p.readBy .expression).1 = unclosedTree := by
  have hread : read .expression
      (unclosedTokens ++ List.replicate 2 ⟨.symbol .rightParen, ")", 3, none⟩) (.endOfSource 3)
        = ⟨unclosedTree, [], []⟩ := rfl
  have hderives := read_eq_iff_derives.mp hread
  have hend : (Token.endOfSource 3).kind = .eof := rfl
  have hclosings : ∀ t ∈ List.replicate 2 (⟨.symbol .rightParen, ")", 3, none⟩ : Token),
      t.kind = .symbol .rightParen := by decide
  obtain ⟨p, -, hp, -, herrors, -, htree, -⟩ :=
    unclosed_costs_one_each hclosings hderives hend
  refine ⟨hderives, p, hp, ?_, htree⟩
  rw [herrors]
  decide

end LoxCalc
