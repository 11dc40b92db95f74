import LoxCalc.Expr.Parser
import LoxCalc.Proofs.Grammar

/-!
# The builder recognises the grammar

An expression is built by looking at one token after the other, and the grammar
says nothing about the order in which tokens are looked at.  The two are
brought together in both directions.

* **Completeness** (`Builder.run_yield`).  A stack on which no frame binds as
  tightly as a category is **open** for it.  Over an open stack the yield of a
  derivation is taken token by token, without a problem, and what is left
  behind reduces to the tree of the derivation.
* **Soundness** (`Pending.reduce`, `Builder.Reads`).  A builder that has met no
  problem has derived everything it has taken, up to what is pending on its
  stack.

Hence `read` succeeds on a sequence of tokens exactly if the sequence is an
expression (`read_eq_iff_derives`), and the sequence has one derivation only
(`Derivation.eq_of_yield_eq`).
-/

namespace LoxCalc

/-! ## Open stacks -/

/-- A stack is open for a rank if its innermost frame does not bind as tightly:
finishing operators of this rank leaves the stack alone. -/
def Open (rank : Nat) : List Frame → Prop
  | [] => True
  | .group :: _ => True
  | .unary _ :: _ => 4 ≤ rank
  | .binary _ _ level :: _ => level.rank < rank

/-- Every stack is open for the operand of a unary operator. -/
theorem open_four (stack : List Frame) : Open 4 stack := by
  match stack with
  | [] => trivial
  | .group :: _ => trivial
  | .unary _ :: _ => exact Nat.le_refl 4
  | .binary _ _ level :: _ => exact level.rank_lt

/-- A stack that is open for a rank is open for every tighter one. -/
theorem Open.mono {rank rank' : Nat} {stack : List Frame} (h : Open rank stack)
    (hrank : rank ≤ rank') : Open rank' stack := by
  match stack, h with
  | [], _ => trivial
  | .group :: _, _ => trivial
  | .unary _ :: _, h => exact Nat.le_trans h hrank
  | .binary _ _ _ :: _, h => exact Nat.lt_of_lt_of_le h hrank

namespace Builder

/-- An operand on a stack that is open for a level stays as it is. -/
theorem reduce_of_open {level : Level} {stack : List Frame} (h : Open level.rank stack)
    (e : Expr) : reduce level.rank e stack = (e, stack) := by
  match stack, h with
  | [], _ => rfl
  | .group :: _, _ => rfl
  | .unary _ :: _, h => exact absurd h (Nat.not_le.mpr level.rank_lt)
  | .binary _ _ level' :: _, h =>
      rw [reduce, if_neg (Nat.not_le.mpr h)]

/-- Taking a token that is not refused. -/
theorem run_cons {floor : Nat} {b b' : Builder} {t : Token} (h : b.step floor t = some b')
    (ts : List Token) : run floor b (t :: ts) = run floor b' ts := by
  simp [run, h]

/-- A literal is taken where an operand has to start. -/
theorem step_literal {floor : Nat} {stack : List Frame} {errors : List Diagnostic} {t : Token}
    (ht : t.isLiteral = true) :
    step floor ⟨stack, none, errors⟩ t
      = some ⟨stack, some (.literal t.kind t.literal), errors⟩ := by
  simp [step, start?, ht]

/-- An opening parenthesis is taken where an operand has to start. -/
theorem step_opening {floor : Nat} {stack : List Frame} {errors : List Diagnostic} {t : Token}
    (ht : t.isOpening = true) :
    step floor ⟨stack, none, errors⟩ t = some ⟨.group :: stack, none, errors⟩ := by
  simp [step, start?, ht, Token.not_isLiteral_of_isOpening ht]

/-- A unary operator is taken where an operand has to start. -/
theorem step_unary {floor : Nat} {stack : List Frame} {errors : List Diagnostic} {t : Token}
    (ht : t.isUnary = true) :
    step floor ⟨stack, none, errors⟩ t = some ⟨.unary t :: stack, none, errors⟩ := by
  simp [step, start?, ht, Token.not_isLiteral_of_isUnary ht]

/-- A binary operator is taken after an operand and finishes what binds at least
as tightly. -/
theorem step_level {b : Builder} {e : Expr} {t : Token} {level : Level}
    (he : b.operand = some e) (ht : t.level? = some level) :
    step 0 b t = some
      ⟨.binary (reduce level.rank e b.stack).1 t level :: (reduce level.rank e b.stack).2,
        none, b.errors⟩ := by
  simp [step, he, extend?, ht]

/-- A closing parenthesis is taken after an operand inside a grouping. -/
theorem step_closing {b : Builder} {e inner : Expr} {stack : List Frame} {t : Token}
    (he : b.operand = some e) (ht : t.isClosing = true)
    (hreduce : reduce 0 e b.stack = (inner, .group :: stack)) :
    step 0 b t = some ⟨stack, some (.grouping inner), b.errors⟩ := by
  simp [step, he, extend?, (Token.not_isLiteral_of_isClosing ht).2.2.2, ht, hreduce]

/-! ## Completeness -/

/-- **The yield of a derivation is taken.**  Over an open stack every token is
taken without a problem; the operand and the stack that are left behind reduce
to the tree of the derivation, whatever comes next. -/
theorem run_yield {c : Category} (d : Derivation c) {stack : List Frame}
    (hopen : Open c.rank stack) (errors : List Diagnostic) :
    ∃ stack' e, (∀ rank, rank ≤ c.rank → reduce rank e stack' = reduce rank d.tree stack) ∧
      ∀ rest, run 0 ⟨stack, none, errors⟩ (d.yield ++ rest)
        = run 0 ⟨stack', some e, errors⟩ rest := by
  induction d generalizing stack with
  | expression d ih => exact ih hopen
  | @single level d ih =>
      have hrank : level.rank ≤ level.operand.rank := by
        rw [Level.rank_operand]
        exact Nat.le_succ _
      obtain ⟨stack', e, hreduce, hrun⟩ := ih (hopen.mono hrank)
      exact ⟨stack', e, fun rank h => hreduce rank (Nat.le_trans h hrank), hrun⟩
  | @join level left op hop right ihl ihr =>
      obtain ⟨stackl, el, hreducel, hrunl⟩ := ihl hopen
      -- the operator finishes the left operand, and the right one starts on an open stack
      have hleft : reduce level.rank el stackl = (left.tree, stack) :=
        (hreducel level.rank (Nat.le_refl _)).trans (reduce_of_open hopen left.tree)
      have hright : Open level.operand.rank (.binary left.tree op level :: stack) := by
        rw [Level.rank_operand]
        exact Nat.lt_succ_self _
      obtain ⟨stackr, er, hreducer, hrunr⟩ := ihr hright
      refine ⟨stackr, er, ?_, ?_⟩
      · intro rank hrank
        rw [hreducer rank (by rw [Level.rank_operand]; exact Nat.le_succ_of_le hrank)]
        simp only [reduce, Derivation.tree]
        exact if_pos hrank
      · intro rest
        have hstep := step_level (b := ⟨stackl, some el, errors⟩) rfl
          (Token.level?_eq_some_iff.mpr hop)
        rw [hleft] at hstep
        rw [Derivation.yield, List.append_assoc, hrunl, List.cons_append, run_cons hstep, hrunr]
  | plain d ih => exact ih hopen
  | prefixed op hop right ih =>
      obtain ⟨stack', e, hreduce, hrun⟩ := ih (open_four (.unary op :: stack))
      refine ⟨stack', e, hreduce, ?_⟩
      intro rest
      rw [Derivation.yield, List.cons_append,
        run_cons (step_unary (Token.isUnary_iff.mpr hop)), hrun]
  | literal t ht =>
      refine ⟨stack, .literal t.kind t.literal, fun _ _ => rfl, ?_⟩
      intro rest
      exact run_cons (step_literal (Token.isLiteral_iff.mpr ht)) rest
  | group opening ho inner closing hc ih =>
      obtain ⟨stack', e, hreduce, hrun⟩ := ih (show Open 0 (.group :: stack) from trivial)
      refine ⟨stack, .grouping inner.tree, fun _ _ => rfl, ?_⟩
      intro rest
      have hclose := step_closing (b := ⟨stack', some e, errors⟩) rfl
        (Token.isClosing_iff.mpr hc) (hreduce 0 (Nat.le_refl 0))
      rw [Derivation.yield, List.cons_append, List.cons_append,
        run_cons (step_opening (Token.isOpening_iff.mpr ho)), List.append_assoc, hrun,
        List.singleton_append, run_cons hclose]

/-! ## Closing -/

/-- The groupings on a stack. -/
def groups : List Frame → Nat
  | [] => 0
  | .group :: stack => groups stack + 1
  | .unary _ :: stack => groups stack
  | .binary _ _ _ :: stack => groups stack

/-- Closing costs one problem for every grouping on the stack. -/
theorem errors_close (next : Token) (e : Expr) (errors : List Diagnostic) (stack : List Frame) :
    (close next e errors stack).2 = errors
      ++ List.replicate (groups stack) (.about next "Expect ')' after expression.") := by
  induction stack generalizing e errors with
  | nil => simp [close, groups]
  | cons frame stack ih =>
      cases frame with
      | group => simp [close, groups, ih, List.replicate_succ]
      | unary op => simp [close, groups, ih]
      | binary left op level => simp [close, groups, ih]

/-- Finishing some operators first makes no difference to closing. -/
theorem close_reduce (next : Token) (rank : Nat) (e : Expr) (errors : List Diagnostic)
    (stack : List Frame) :
    close next (reduce rank e stack).1 errors (reduce rank e stack).2
      = close next e errors stack := by
  fun_induction reduce rank e stack with
  | case1 e op stack ih => rw [ih, close]
  | case2 e left op level stack hrank ih => rw [ih, close]
  | case3 e left op level stack hrank => rfl
  | case4 e stack => rfl

/-! ## Problems only accumulate -/

/-- Taking a token after an operand records no problem. -/
theorem errors_extend? {floor : Nat} {b b' : Builder} {e : Expr} {t : Token}
    (h : b.extend? floor e t = some b') : b'.errors = b.errors := by
  grind [extend?]

/-- Starting an operand records no problem. -/
theorem errors_start? {b b' : Builder} {t : Token} (h : b.start? t = some b') :
    b'.errors = b.errors := by
  grind [start?]

/-- A step records at most one problem, and only where an operand is missing. -/
theorem errors_step {floor : Nat} {b b' : Builder} {t : Token} (h : b.step floor t = some b') :
    b'.errors = b.errors ∨
      b.operand = none ∧ b.start? t = none ∧
        b'.errors = b.errors ++ [.about t "Expect expression."] := by
  unfold step at h
  split at h
  · exact .inl (errors_extend? h)
  · next hnone =>
    split at h
    · next b'' hstart =>
      cases h
      exact .inl (errors_start? hstart)
    · next hstart =>
      exact .inr ⟨hnone, hstart, errors_extend? h⟩

/-- The problems met by a run come after those met before. -/
theorem errors_run_isPrefix (floor : Nat) (b : Builder) (ts : List Token) :
    b.errors <+: (run floor b ts).1.errors := by
  induction ts generalizing b with
  | nil => exact List.prefix_refl _
  | cons t ts ih =>
      rw [run]
      split
      · next b' hstep =>
        have hfirst : b.errors <+: b'.errors := by
          rcases errors_step hstep with h | ⟨-, -, h⟩
          · exact ⟨[], by rw [h, List.append_nil]⟩
          · exact ⟨_, h.symm⟩
        exact hfirst.trans (ih b')
      · exact List.prefix_refl _

end Builder

/-! ## Soundness -/

/-- The stack is what is unfinished after the tokens have been taken: opened
groupings, operators before a missing operand, and left operands with their
operators. -/
inductive Pending : List Frame → List Token → Prop
  | nil : Pending [] []
  | group {stack : List Frame} {u : List Token} (h : Pending stack u) {t : Token}
      (ht : t.isOpening = true) : Pending (.group :: stack) (u ++ [t])
  | unary {stack : List Frame} {u : List Token} (h : Pending stack u) {op : Token}
      (hop : op.isUnary = true) : Pending (.unary op :: stack) (u ++ [op])
  | binary {stack : List Frame} {u v : List Token} {left : Expr} {level : Level}
      (h : Pending stack u) (hopen : Open level.rank stack)
      (hleft : Derives (.chain level) v left) {op : Token} (hop : op.level? = some level) :
      Pending (.binary left op level :: stack) (u ++ v ++ [op])

/-- **Finishing operators derives a chain.**  What is pending together with an
operand that it is open for is regrouped: fewer tokens are pending, and the
rest is derived as a chain of the level. -/
theorem Pending.reduce {stack : List Frame} {u : List Token} (hs : Pending stack u)
    {c : Category} {w : List Token} {e : Expr} (he : Derives c w e) (hopen : Open c.rank stack)
    {level : Level} (hlevel : level.rank ≤ c.rank) :
    ∃ u' w', Pending (Builder.reduce level.rank e stack).2 u' ∧
      Open level.rank (Builder.reduce level.rank e stack).2 ∧
      Derives (.chain level) w' (Builder.reduce level.rank e stack).1 ∧
      u ++ w = u' ++ w' := by
  induction hs generalizing c w e with
  | nil => exact ⟨[], w, .nil, trivial, he.loosen hlevel, rfl⟩
  | @group stack u hs t ht =>
      exact ⟨u ++ [t], w, .group hs ht, trivial, he.loosen hlevel, rfl⟩
  | @unary stack u hs op hop ih =>
      have hprefixed : Derives .unary (op :: w) (.unary op e) := (he.unary hopen).prefixed hop
      obtain ⟨u', w', hpending, hopen', hchain, heq⟩ :=
        ih hprefixed (open_four stack) (Nat.le_of_lt level.rank_lt)
      refine ⟨u', w', hpending, hopen', hchain, ?_⟩
      rw [← heq, List.append_assoc, List.singleton_append]
  | @binary stack u v left inner hs hinner hleft op hop ih =>
      rw [Builder.reduce]
      split
      · next hrank =>
        have hjoin : Derives (.chain inner) (v ++ op :: w) (.binary left op e) :=
          hleft.join hop (he.operand hopen)
        obtain ⟨u', w', hpending, hopen', hchain, heq⟩ := ih hjoin hinner hrank
        refine ⟨u', w', hpending, hopen', hchain, ?_⟩
        rw [← heq]
        simp
      · next hrank =>
        exact ⟨_, w, .binary hs hinner hleft hop, Nat.not_le.mp hrank, he.loosen hlevel, rfl⟩

namespace Builder

/-- The builder has taken the tokens `w` and derived all of them but what is
pending on its stack. -/
def Reads (b : Builder) (w : List Token) : Prop :=
  match b.operand with
  | none => Pending b.stack w
  | some e => ∃ u v, Pending b.stack u ∧ Derives .primary v e ∧ w = u ++ v

/-- Starting an operand keeps track of the tokens taken. -/
theorem Reads.start? {b b' : Builder} {w : List Token} {t : Token} (hnone : b.operand = none)
    (hb : b.Reads w) (h : b.start? t = some b') : b'.Reads (w ++ [t]) := by
  have hpending : Pending b.stack w := by simpa [Reads, hnone] using hb
  unfold Builder.start? at h
  split at h
  · next ht =>
    cases h
    exact ⟨w, [t], hpending, .literal ht, rfl⟩
  split at h
  · next ht =>
    cases h
    simpa [Reads, hnone] using hpending.group ht
  split at h
  · next ht =>
    cases h
    simpa [Reads, hnone] using hpending.unary ht
  · cases h

/-- Taking a token after an operand keeps track of the tokens taken. -/
theorem Reads.extend? {b b' : Builder} {w : List Token} {e : Expr} {t : Token}
    (hsome : b.operand = some e) (hb : b.Reads w) (h : b.extend? 0 e t = some b') :
    b'.Reads (w ++ [t]) := by
  obtain ⟨u, v, hpending, hprimary, rfl⟩ :
      ∃ u v, Pending b.stack u ∧ Derives .primary v e ∧ w = u ++ v := by
    simpa [Reads, hsome] using hb
  have hopen : Open Category.primary.rank b.stack := open_four b.stack
  unfold Builder.extend? at h
  split at h
  · next level hlevel =>
    obtain ⟨u', w', hpending', hopen', hchain, heq⟩ :=
      hpending.reduce hprimary hopen (Nat.le_of_lt level.rank_lt)
    simp only [Nat.not_lt_zero, and_false, if_false, Option.some.injEq] at h
    subst h
    rw [heq]
    exact hpending'.binary hopen' hchain hlevel
  · split at h
    · next hclosing =>
      have hrank : Level.equality.rank ≤ Category.primary.rank := Nat.zero_le _
      obtain ⟨u', w', hpending', -, hchain, heq⟩ := hpending.reduce hprimary hopen hrank
      split at h
      · next inner stack hreduce =>
        cases h
        rw [show Level.equality.rank = 0 from rfl, hreduce] at hpending' hchain
        cases hpending' with
        | @group _ u'' hs o ho =>
            refine ⟨u'', o :: w' ++ [t], hs, .group ho hchain.expression hclosing, ?_⟩
            rw [heq]
            simp
      · cases h
    · cases h

/-- A step that records no problem keeps track of the tokens taken. -/
theorem Reads.step {b b' : Builder} {w : List Token} {t : Token} (hb : b.Reads w)
    (h : b.step 0 t = some b') (herrors : b'.errors = b.errors) : b'.Reads (w ++ [t]) := by
  cases hoperand : b.operand with
  | some e =>
      rw [Builder.step, hoperand] at h
      exact hb.extend? hoperand h
  | none =>
      rcases hstart : b.start? t with _ | b''
      · rw [Builder.step, hoperand, hstart] at h
        have hmore : b'.errors = b.errors ++ [.about t "Expect expression."] := errors_extend? h
        simp [hmore] at herrors
      · rw [Builder.step, hoperand, hstart] at h
        cases h
        exact Reads.start? hoperand hb hstart

/-- A run that records no problem keeps track of the tokens taken. -/
theorem Reads.run {b : Builder} {w : List Token} (hb : b.Reads w) (ts : List Token)
    (herrors : (Builder.run 0 b ts).1.errors = b.errors) :
    ∃ taken, ts = taken ++ (Builder.run 0 b ts).2 ∧
      (Builder.run 0 b ts).1.Reads (w ++ taken) := by
  induction ts generalizing b w with
  | nil => exact ⟨[], rfl, by simpa [Builder.run] using hb⟩
  | cons t ts ih =>
      rcases hstep : b.step 0 t with _ | b'
      · rw [Builder.run, hstep]
        exact ⟨[], rfl, by simpa using hb⟩
      · rw [run_cons hstep] at herrors ⊢
        -- no problem in the whole run, so none in the first step
        have hfirst : b'.errors = b.errors := by
          have hprefix := errors_run_isPrefix 0 b' ts
          rw [herrors] at hprefix
          rcases errors_step hstep with h | ⟨-, -, h⟩
          · exact h
          · have hlength := hprefix.length_le
            rw [h, List.length_append, List.length_singleton] at hlength
            omega
        obtain ⟨taken, hts, hreads⟩ := ih (hb.step hstep hfirst) (herrors.trans hfirst.symm)
        refine ⟨t :: taken, by rw [List.cons_append, ← hts], ?_⟩
        simpa using hreads

/-- Finishing without a problem derives an expression. -/
theorem Reads.finish {b : Builder} {w : List Token} (hb : b.Reads w) (next : Token)
    (herrors : (b.finish next).2 = b.errors) : Derives .expression w (b.finish next).1 := by
  cases hoperand : b.operand with
  | none =>
      have hlength := congrArg List.length herrors
      simp [Builder.finish, hoperand, errors_close, complain] at hlength
  | some e =>
      obtain ⟨u, v, hpending, hprimary, rfl⟩ :
          ∃ u v, Pending b.stack u ∧ Derives .primary v e ∧ w = u ++ v := by
        simpa [Reads, hoperand] using hb
      have hrank : Level.equality.rank ≤ Category.primary.rank := Nat.zero_le _
      obtain ⟨u', w', hpending', hopen', hchain, heq⟩ :=
        hpending.reduce hprimary (open_four b.stack) hrank
      have hfinish : b.finish next = close next (Builder.reduce 0 e b.stack).1 b.errors
          (Builder.reduce 0 e b.stack).2 := by
        rw [Builder.finish, hoperand, close_reduce]
      rw [show Level.equality.rank = 0 from rfl] at hpending' hopen' hchain
      rw [hfinish] at herrors ⊢
      -- only groupings could be left on the stack, and each would cost a problem
      cases hstack : (Builder.reduce 0 e b.stack).2 with
      | nil =>
          rw [hstack] at hpending'
          cases hpending'
          rw [heq]
          exact hchain.expression
      | cons frame stack =>
          rw [hstack] at hopen' herrors
          cases frame with
          | group => simp [errors_close, groups] at herrors
          | unary op => exact absurd hopen' (by simp [Open])
          | binary left op level => exact absurd hopen' (Nat.not_lt_zero _)

end Builder

/-! ## Reading a sequence of tokens -/

/-- Reading an expression is running the builder and finishing. -/
theorem read_expression (ts : List Token) (stop : Token) :
    read .expression ts stop =
      ⟨((Builder.run 0 {} ts).1.finish ((Builder.run 0 {} ts).2.headD stop)).1,
        ((Builder.run 0 {} ts).1.finish ((Builder.run 0 {} ts).2.headD stop)).2,
        (Builder.run 0 {} ts).2⟩ := by
  simp [read, Rule.floor]

/-- The yield of a derivation is read to its end, into the tree of the derivation. -/
theorem read_of_derives {w : List Token} {e : Expr} (h : Derives .expression w e) (stop : Token) :
    read .expression w stop = ⟨e, [], []⟩ := by
  obtain ⟨d, rfl, rfl⟩ := h
  obtain ⟨stack, e, hreduce, hrun⟩ := Builder.run_yield d (show Open 0 [] from trivial) []
  have hend : Builder.run 0 {} d.yield = (⟨stack, some e, []⟩, []) := by
    simpa [Builder.run] using hrun []
  have hclose : Builder.close stop e [] stack = (d.tree, []) := by
    rw [← Builder.close_reduce stop 0, hreduce 0 (Nat.le_refl 0)]
    rfl
  rw [read_expression, hend]
  simp [Builder.finish, hclose]

/-- What is read without a problem is an expression. -/
theorem derives_of_read {ts : List Token} {stop : Token}
    (h : (read .expression ts stop).errors = []) :
    ∃ taken, ts = taken ++ (read .expression ts stop).rest ∧
      Derives .expression taken (read .expression ts stop).expr := by
  rw [read_expression] at h ⊢
  have hprefix := Builder.errors_run_isPrefix 0 {} ts
  have hfinish : ∃ more, ((Builder.run 0 {} ts).1.finish
      ((Builder.run 0 {} ts).2.headD stop)).2 = (Builder.run 0 {} ts).1.errors ++ more := by
    unfold Builder.finish
    split <;> simp [Builder.errors_close, Builder.complain]
  obtain ⟨more, hmore⟩ := hfinish
  have hrun : (Builder.run 0 {} ts).1.errors = [] := by simp_all
  obtain ⟨taken, hts, hreads⟩ :=
    Builder.Reads.run (b := {}) (w := []) Pending.nil ts hrun
  exact ⟨taken, hts, hreads.finish _ (by simpa [hrun] using h)⟩

/-- **Reading recognises expressions.**  A sequence of tokens is read to its end
without a problem exactly if it is derived, and the tree is the one derived. -/
theorem read_eq_iff_derives {w : List Token} {stop : Token} {e : Expr} :
    read .expression w stop = ⟨e, [], []⟩ ↔ Derives .expression w e := by
  constructor
  · intro h
    have herrors : (read .expression w stop).errors = [] := by rw [h]
    obtain ⟨taken, hw, hderives⟩ := derives_of_read herrors
    rw [h] at hw hderives
    rw [hw, List.append_nil]
    exact hderives
  · intro h
    exact read_of_derives h stop

/-- **The grammar is unambiguous.**  A sequence of tokens has at most one
derivation as an expression. -/
theorem Derivation.eq_of_yield_eq {d d' : Derivation .expression} (h : d.yield = d'.yield) :
    d = d' := by
  have stop : Token := .endOfSource 1
  have hread : read .expression d.yield stop = ⟨d.tree, [], []⟩ :=
    read_of_derives ⟨d, rfl, rfl⟩ stop
  have hread' : read .expression d.yield stop = ⟨d'.tree, [], []⟩ :=
    read_of_derives ⟨d', h.symm, rfl⟩ stop
  have htree : d.tree = d'.tree := congrArg Reading.expr (hread.symm.trans hread')
  exact eq_of_tree_eq h htree

end LoxCalc
