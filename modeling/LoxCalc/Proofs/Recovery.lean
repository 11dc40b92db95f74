import LoxCalc.Proofs.Parsing

/-!
# Recovery accounts for every token and every gap

Reading never stops at a problem.  Where an operand or a closing parenthesis is
missing there is a **gap**: no token is taken, a problem is recorded about the
next token, and reading goes on as if nothing were missing.

The tree that comes out does not tell which of its groupings were closed.  A
`Marked` tree does, and so it tells all that was read: the tokens it stands for
and the gaps between them, each with the number of tokens before it.

* `Held` relates a stack and the operand on it to the tokens and the gaps that
  they account for; finishing an operator or a grouping keeps this
  (`Held.unary`, `Held.binary`, `Held.closed`, `Held.unclosed`);
* `Builder.Recovers.step`: a token that is taken is accounted for, and a problem
  that is recorded is a gap;
* `read_accounts`: so is everything that a reading takes, by any rule.

`recovery_accounts` says this of a parser, wherever it stands.
-/

namespace LoxCalc

/-! ## Marked trees -/

/-- A tree in which every grouping is marked as closed or unclosed. -/
inductive Marked
  | literal (kind : Kind) (text : Option String)
  | grouping (closed : Bool) (inner : Marked)
  | unary (op : Token) (right : Marked)
  | binary (left : Marked) (op : Token) (right : Marked)

/-- A place where something is missing. -/
structure Marked.Gap where
  /-- The index of the first token after the gap. -/
  index : Nat
  /-- What is said about that token. -/
  message : String
  deriving DecidableEq

/-- The problem that a gap among the tokens amounts to. -/
def Marked.Gap.diagnostic? (ts : List Token) (g : Marked.Gap) : Option Diagnostic :=
  ts[g.index]?.map fun t => .about t g.message

namespace Marked

/-- The tree without its marks. -/
def tree : Marked → Expr
  | literal kind text => .literal kind text
  | grouping _ m => .grouping m.tree
  | unary op m => .unary op m.tree
  | binary l op r => .binary l.tree op r.tree

/-- What the tree keeps of its tokens, from left to right.  The placeholder for an
expression and a parenthesis that is missing stand for no token. -/
def leaves : Marked → List Leaf
  | literal kind text => if kind = .error then [] else [.literal kind text]
  | grouping closed m => .opening :: m.leaves ++ if closed then [.closing] else []
  | unary op m => .operator op :: m.leaves
  | binary l op r => l.leaves ++ .operator op :: r.leaves

/-- The gaps of a tree from left to right, if its first token has the index `n`. -/
def gaps (n : Nat) : Marked → List Gap
  | literal kind _ => if kind = .error then [⟨n, "Expect expression."⟩] else []
  | grouping closed m => m.gaps (n + 1) ++
      if closed then [] else [⟨n + 1 + m.leaves.length, "Expect ')' after expression."⟩]
  | unary _ m => m.gaps (n + 1)
  | binary l _ r => l.gaps n ++ r.gaps (n + l.leaves.length + 1)

end Marked

/-! ## What a stack accounts for -/

/-- The stack is what is unfinished after the tokens have been taken, the first of
which has the index `c`, with these gaps among them. -/
inductive Unfinished (c : Nat) : List Frame → List Token → List Marked.Gap → Prop
  | nil : Unfinished c [] [] []
  | group {stack : List Frame} {u : List Token} {gs : List Marked.Gap} (h : Unfinished c stack u gs)
      {t : Token} (ht : t.isOpening = true) : Unfinished c (.group :: stack) (u ++ [t]) gs
  | unary {stack : List Frame} {u : List Token} {gs : List Marked.Gap} (h : Unfinished c stack u gs)
      {op : Token} (hop : op.isUnary = true) : Unfinished c (.unary op :: stack) (u ++ [op]) gs
  | binary {stack : List Frame} {u v : List Token} {gs : List Marked.Gap} {m : Marked}
      (h : Unfinished c stack u gs) (hm : m.leaves = v.map Token.leaf) {op : Token}
      {level : Level} (hop : op.level? = some level) :
      Unfinished c (.binary m.tree op level :: stack) (u ++ v ++ [op])
        (gs ++ m.gaps (c + u.length))

/-- The stack and the operand on it account for the tokens and the gaps. -/
inductive Held (c : Nat) : List Frame → Expr → List Token → List Marked.Gap → Prop
  | mk {stack : List Frame} {u v : List Token} {gs : List Marked.Gap} {m : Marked}
      (hs : Unfinished c stack u gs) (hm : m.leaves = v.map Token.leaf) :
      Held c stack m.tree (u ++ v) (gs ++ m.gaps (c + u.length))

namespace Held

variable {c : Nat} {stack : List Frame} {e : Expr} {w : List Token} {gs : List Marked.Gap}

/-- An operator before its operand is finished. -/
theorem unary {op : Token} (h : Held c (.unary op :: stack) e w gs) :
    Held c stack (.unary op e) w gs := by
  cases h with
  | @mk _ v _ m hs hm =>
      cases hs with
      | @unary _ u _ hs _ hop =>
          have hleaves : (m.unary op).leaves = (op :: v).map Token.leaf := by
            rw [Marked.leaves, hm, List.map_cons, Token.leaf_of_isUnary hop]
          have hheld := Held.mk hs hleaves
          rw [List.append_assoc, List.length_append, List.length_singleton, ← Nat.add_assoc]
          exact hheld

/-- A binary operator with both of its operands is finished. -/
theorem binary {op : Token} {level : Level} {l : Expr}
    (h : Held c (.binary l op level :: stack) e w gs) : Held c stack (.binary l op e) w gs := by
  cases h with
  | @mk _ v _ m hs hm =>
      cases hs with
      | @binary _ u ul _ ml hs hml _ _ hop =>
          have hleaves : (ml.binary op m).leaves = (ul ++ op :: v).map Token.leaf := by
            rw [Marked.leaves, hml, hm, List.map_append, List.map_cons, Token.leaf_of_level? hop]
          have hlength : ml.leaves.length = ul.length := by rw [hml, List.length_map]
          have hheld := Held.mk hs hleaves
          rw [Marked.tree, Marked.gaps, hlength] at hheld
          simpa [Nat.add_assoc] using hheld

/-- A grouping is finished by a closing parenthesis. -/
theorem closed {t : Token} (ht : t.isClosing = true) (h : Held c (.group :: stack) e w gs) :
    Held c stack (.grouping e) (w ++ [t]) gs := by
  cases h with
  | @mk _ v _ m hs hm =>
      cases hs with
      | @group _ u _ hs o ho =>
          have hleaves : (m.grouping true).leaves = (o :: (v ++ [t])).map Token.leaf := by
            simp [Marked.leaves, hm, Token.leaf_of_isOpening ho, Token.leaf_of_isClosing ht]
          have hheld := Held.mk hs hleaves
          rw [Marked.tree, Marked.gaps] at hheld
          simpa [Nat.add_assoc] using hheld

/-- A grouping is finished without a closing parenthesis, which leaves a gap. -/
theorem unclosed (h : Held c (.group :: stack) e w gs) :
    Held c stack (.grouping e) w
      (gs ++ [⟨c + w.length, "Expect ')' after expression."⟩]) := by
  cases h with
  | @mk _ v _ m hs hm =>
      cases hs with
      | @group _ u _ hs o ho =>
          have hleaves : (m.grouping false).leaves = (o :: v).map Token.leaf := by
            simp [Marked.leaves, hm, Token.leaf_of_isOpening ho]
          have hheld := Held.mk hs hleaves
          have hindex : c + u.length + 1 + m.leaves.length = c + (u ++ [o] ++ v).length := by
            rw [hm, List.length_map, List.length_append, List.length_append, List.length_singleton]
            omega
          rw [Marked.tree, Marked.gaps, hindex] at hheld
          simpa [Nat.add_assoc] using hheld

/-- An operand becomes the left one of a binary operator. -/
theorem awaiting {op : Token} {level : Level} (hop : op.level? = some level)
    (h : Held c stack e w gs) : Unfinished c (.binary e op level :: stack) (w ++ [op]) gs := by
  cases h with
  | mk hs hm => exact hs.binary hm hop

/-- Finishing operators keeps account. -/
theorem reduce (h : Held c stack e w gs) (rank : Nat) :
    Held c (Builder.reduce rank e stack).2 (Builder.reduce rank e stack).1 w gs := by
  fun_induction Builder.reduce rank e stack with
  | case1 e op stack ih => exact ih h.unary
  | case2 e left op level stack hrank ih => exact ih h.binary
  | case3 e left op level stack hrank => exact h
  | case4 e stack => exact h

/-- **Closing leaves a gap for every grouping on the stack**, all of them before
the token that ended the expression, and keeps account of the rest. -/
theorem close (h : Held c stack e w gs) (next : Token) (errors : List Diagnostic) :
    ∃ m : Marked, m.tree = (Builder.close next e errors stack).1 ∧
      m.leaves = w.map Token.leaf ∧
      m.gaps c = gs ++ List.replicate (Builder.groups stack)
        ⟨c + w.length, "Expect ')' after expression."⟩ := by
  induction stack generalizing e gs errors with
  | nil =>
      obtain ⟨hs, hm⟩ := h
      cases hs
      exact ⟨_, rfl, hm, by simp [Builder.groups]⟩
  | cons frame stack ih =>
      cases frame with
      | group =>
          obtain ⟨m, htree, hleaves, hgaps⟩ := ih h.unclosed _
          refine ⟨m, htree, hleaves, ?_⟩
          rw [hgaps, Builder.groups, List.replicate_succ, List.append_assoc, List.singleton_append]
      | unary op => exact ih h.unary errors
      | binary left op level => exact ih h.binary errors

end Held

/-! ## What a builder accounts for -/

namespace Builder

/-- The builder accounts for the tokens it has taken and the gaps among them. -/
def Accounts (c : Nat) (b : Builder) (w : List Token) (gs : List Marked.Gap) : Prop :=
  match b.operand with
  | none => Unfinished c b.stack w gs
  | some e => Held c b.stack e w gs

/-- The tokens are among all tokens from the index `c` on, and the problems of the
builder are its gaps among them. -/
structure Recovers (ts : List Token) (c : Nat) (b : Builder) (w rest : List Token) : Prop where
  tokens : ts.drop c = w ++ rest
  accounts : ∃ gs, b.Accounts c w gs ∧ gs.map (Marked.Gap.diagnostic? ts) = b.errors.map some

variable {ts : List Token} {c floor : Nat} {b b' : Builder} {w rest : List Token}
  {gs : List Marked.Gap} {t : Token}

/-- What is said about a gap before the next token. -/
theorem diagnostic?_next (hts : ts.drop c = w ++ t :: rest) (message : String) :
    Marked.Gap.diagnostic? ts ⟨c + w.length, message⟩ = some (.about t message) := by
  have hget : ts[c + w.length]? = some t := by
    rw [← List.getElem?_drop, hts]
    simp
  simp [Marked.Gap.diagnostic?, hget]

/-- Where an operand is missing there is a gap. -/
theorem held_missing {stack : List Frame} (h : Unfinished c stack w gs) :
    Held c stack .missing w (gs ++ [⟨c + w.length, "Expect expression."⟩]) := by
  have hleaves : (Marked.literal .error none).leaves = ([] : List Token).map Token.leaf := rfl
  have hheld := Held.mk h hleaves
  rw [List.append_nil] at hheld
  exact hheld

namespace Accounts

/-- A token that starts an operand is accounted for. -/
theorem start? (hnone : b.operand = none) (h : b.Accounts c w gs)
    (hstart : b.start? t = some b') : b'.Accounts c (w ++ [t]) gs := by
  have hs : Unfinished c b.stack w gs := by simpa [Accounts, hnone] using h
  unfold Builder.start? at hstart
  split at hstart
  · next ht =>
    cases hstart
    have hkind : t.kind ≠ .error := by
      intro hk
      simp [Token.isLiteral, hk] at ht
    have hleaves : (Marked.literal t.kind t.literal).leaves = [t].map Token.leaf := by
      simp [Marked.leaves, hkind, Token.leaf_of_isLiteral ht]
    have hheld := Held.mk hs hleaves
    rw [Marked.gaps, if_neg hkind, List.append_nil] at hheld
    exact hheld
  split at hstart
  · next ht =>
    cases hstart
    simpa [Accounts, hnone] using hs.group ht
  split at hstart
  · next ht =>
    cases hstart
    simpa [Accounts, hnone] using hs.unary ht
  · cases hstart

/-- A token that is taken after an operand is accounted for. -/
theorem extend? {e : Expr} (h : Held c b.stack e w gs) (hextend : b.extend? floor e t = some b') :
    b'.Accounts c (w ++ [t]) gs := by
  unfold Builder.extend? at hextend
  split at hextend
  · next level hlevel =>
    have hreduced := h.reduce level.rank
    simp only at hextend
    split at hextend
    · cases hextend
    · cases hextend
      -- the operator waits for its right operand, and its left one is accounted for
      exact hreduced.awaiting hlevel
  · split at hextend
    · next hclosing =>
      have hreduced := h.reduce 0
      split at hextend
      · next inner stack hreduce =>
        cases hextend
        rw [hreduce] at hreduced
        exact hreduced.closed hclosing
      · cases hextend
    · cases hextend

end Accounts

namespace Recovers

/-- **A token that is taken is accounted for, and a problem that is recorded is a
gap before it.** -/
theorem step (h : Recovers ts c b w (t :: rest)) (hstep : b.step floor t = some b') :
    Recovers ts c b' (w ++ [t]) rest := by
  obtain ⟨gs, haccounts, hgaps⟩ := h.accounts
  refine ⟨by rw [h.tokens, List.append_assoc, List.singleton_append], ?_⟩
  cases hoperand : b.operand with
  | some e =>
      rw [Builder.step, hoperand] at hstep
      have hheld : Held c b.stack e w gs := by simpa [Accounts, hoperand] using haccounts
      exact ⟨gs, Accounts.extend? hheld hstep, by rw [hgaps, errors_extend? hstep]⟩
  | none =>
      cases hstart : b.start? t with
      | some b'' =>
          rw [Builder.step, hoperand, hstart] at hstep
          cases hstep
          exact ⟨gs, haccounts.start? hoperand hstart, by rw [hgaps, errors_start? hstart]⟩
      | none =>
          rw [Builder.step, hoperand, hstart] at hstep
          have hs : Unfinished c b.stack w gs := by simpa [Accounts, hoperand] using haccounts
          have hmissing : Held c (b.complain t "Expect expression.").stack .missing w
              (gs ++ [⟨c + w.length, "Expect expression."⟩]) := held_missing hs
          refine ⟨_, Accounts.extend? hmissing hstep, ?_⟩
          rw [errors_extend? hstep, List.map_append, hgaps, complain, List.map_append]
          simp [diagnostic?_next h.tokens]

/-- A run keeps account of what it takes. -/
theorem run (floor : Nat) {ahead : List Token} (h : Recovers ts c b w (ahead ++ rest)) :
    ∃ taken, ahead = taken ++ (Builder.run floor b ahead).2 ∧
      Recovers ts c (Builder.run floor b ahead).1 (w ++ taken)
        ((Builder.run floor b ahead).2 ++ rest) := by
  induction ahead generalizing b w with
  | nil => exact ⟨[], rfl, by simpa [Builder.run] using h⟩
  | cons t ahead ih =>
      cases hstep : b.step floor t with
      | none =>
          rw [Builder.run, hstep]
          exact ⟨[], rfl, by simpa using h⟩
      | some b' =>
          obtain ⟨taken, hahead, htaken⟩ := ih (h.step hstep)
          rw [run_cons hstep]
          refine ⟨t :: taken, by rw [List.cons_append, ← hahead], ?_⟩
          rwa [List.append_assoc, List.singleton_append] at htaken

/-- Finishing keeps account, with the gaps that it leaves before the next token. -/
theorem finish {next : Token} (h : Recovers ts c b w (next :: rest)) :
    ∃ m : Marked, m.tree = (b.finish next).1 ∧ m.leaves = w.map Token.leaf ∧
      (m.gaps c).map (Marked.Gap.diagnostic? ts) = (b.finish next).2.map some := by
  obtain ⟨gs, haccounts, hgaps⟩ := h.accounts
  have hnext := fun message => diagnostic?_next h.tokens message
  unfold Builder.finish
  cases hoperand : b.operand with
  | some e =>
      have hheld : Held c b.stack e w gs := by simpa [Accounts, hoperand] using haccounts
      obtain ⟨m, htree, hleaves, hm⟩ := hheld.close next b.errors
      refine ⟨m, htree, hleaves, ?_⟩
      rw [hm, errors_close]
      simp [hgaps, hnext]
  | none =>
      have hs : Unfinished c b.stack w gs := by simpa [Accounts, hoperand] using haccounts
      obtain ⟨m, htree, hleaves, hm⟩ :=
        (held_missing hs).close next (b.complain next "Expect expression.").errors
      refine ⟨m, htree, hleaves, ?_⟩
      rw [hm, errors_close]
      simp [complain, hgaps, hnext]

end Recovers

end Builder

/-! ## Readings -/

/-- **A reading accounts for every token and every gap**, by whatever rule it
reads: the tree stands for the tokens taken, and the problems are its gaps. -/
theorem read_accounts (rule : Rule) {ts ahead beyond : List Token} {stop : Token} {c : Nat}
    (hts : ts.drop c = ahead ++ stop :: beyond) :
    ∃ (m : Marked) (taken : List Token), ahead = taken ++ (read rule ahead stop).rest ∧
      m.tree = (read rule ahead stop).expr ∧ m.leaves = taken.map Token.leaf ∧
      (m.gaps c).map (Marked.Gap.diagnostic? ts) = (read rule ahead stop).errors.map some := by
  unfold read
  split
  · -- an operator is no primary expression, and nothing is taken
    refine ⟨.literal .error none, [], rfl, rfl, rfl, ?_⟩
    have hnext : ∃ rest, ts.drop c = [] ++ ahead.headD stop :: rest := by
      cases ahead with
      | nil => exact ⟨beyond, hts⟩
      | cons t ahead => exact ⟨ahead ++ stop :: beyond, hts⟩
    obtain ⟨rest, hrest⟩ := hnext
    have hgap := Builder.diagnostic?_next hrest "Expect expression."
    simpa [Marked.gaps, Builder.complain] using hgap
  · have hstart : Builder.Recovers ts c {} [] (ahead ++ stop :: beyond) :=
      ⟨hts, [], Unfinished.nil, rfl⟩
    obtain ⟨taken, hahead, hrun⟩ := hstart.run rule.floor
    rw [List.nil_append] at hrun
    simp only
    generalize Builder.run rule.floor {} ahead = r at hahead hrun ⊢
    obtain ⟨b, rest⟩ := r
    have hnext : ∃ more, Builder.Recovers ts c b taken (rest.headD stop :: more) := by
      cases rest with
      | nil => exact ⟨beyond, hrun⟩
      | cons t rest => exact ⟨rest ++ stop :: beyond, hrun⟩
    obtain ⟨more, hmore⟩ := hnext
    obtain ⟨m, htree, hleaves, hgaps⟩ := hmore.finish
    exact ⟨m, taken, hahead, htree, hleaves, hgaps⟩

namespace Parser

/-- What is ahead of a parser are all tokens from its position on. -/
theorem drop_position (p : Parser) :
    p.tokens.drop p.position = p.ahead ++ p.stop :: p.beyond := by
  rw [tokens, position, List.append_assoc, List.drop_left' List.length_reverse]

/-- A parser that has read `e` and stands at `q` has recovered from every problem:
the marked tree stands for exactly the tokens that it has passed, and the problems
added are its gaps, in order, each about the first token after the gap. -/
structure Recovered (p : Parser) (e : Expr) (q : Parser) (m : Marked) : Prop where
  tree : m.tree = e
  tokens : q.tokens = p.tokens
  position : p.position ≤ q.position
  leaves : m.leaves = ((p.tokens.take q.position).drop p.position).map Token.leaf
  errors : ∃ added, q.errors = p.errors ++ added ∧
    (m.gaps p.position).map (Marked.Gap.diagnostic? p.tokens) = added.map some

/-- Reading by a rule recovers from every problem. -/
theorem readBy_recovered (p : Parser) (rule : Rule) :
    ∃ m, p.Recovered (p.readBy rule).1 (p.readBy rule).2 m := by
  obtain ⟨m, taken, hahead, htree, hleaves, hgaps⟩ := read_accounts rule p.drop_position
  have hcount : p.ahead.length - (read rule p.ahead p.stop).rest.length = taken.length := by
    have hlength := congrArg List.length hahead
    rw [List.length_append] at hlength
    omega
  have htake : p.ahead.take taken.length = taken := by
    rw [hahead, List.take_left]
  have hposition : (p.readBy rule).2.position = p.position + taken.length := by
    simp only [readBy, hcount, Parser.position, move, htake, List.length_append,
      List.length_reverse]
    omega
  refine ⟨m, htree, tokens_move p _, by omega, ?_, _, rfl, hgaps⟩
  rw [hleaves, hposition, List.drop_take, Nat.add_sub_cancel_left, drop_position,
    hahead, List.append_assoc, List.take_left]

/-- A reading that is not too deep is the unlimited one. -/
theorem eq_readBy_of_readBy?_ok {p : Parser} {rule : Rule} {r : Expr × Parser}
    (h : p.readBy? rule = .ok r) : r = p.readBy rule := by
  unfold readBy? at h
  simp only at h
  split at h
  · cases h
    rfl
  · cases h

/-- A parse adds one problem to those of the reading, about the token that it stands
at, exactly if there is no other one and that token is no end mark. -/
theorem errors_parse (p : Parser) :
    p.parse.2.errors = (p.readBy .expression).2.errors ++
      if (p.readBy .expression).2.errors = [] ∧ (p.readBy .expression).2.peek.isEnd = false then
        [.about (p.readBy .expression).2.peek "Expect end of expression."]
      else [] := by
  have hrest := ahead_readBy p
  have herrors : (p.readBy .expression).2.errors
      = p.errors ++ (read .expression p.ahead p.stop).errors := rfl
  have hpeek : (p.readBy .expression).2.peek.isEnd
      = (read .expression p.ahead p.stop).rest.isEmpty := by
    rw [← hrest, peek]
    cases hahead : (p.readBy .expression).2.ahead with
    | nil => exact (p.readBy .expression).2.stop_isEnd
    | cons t ahead =>
        have hmem : t ∈ (p.readBy .expression).2.ahead := by
          rw [hahead]
          exact List.mem_cons_self
        exact (p.readBy .expression).2.ahead_not_end t hmem
  rw [hpeek, parse_eq, ← herrors]
  by_cases hnone : (p.readBy .expression).2.errors = []
  · by_cases hend : (read .expression p.ahead p.stop).rest.isEmpty = true
    · simp [hnone, hend]
    · simp [hnone, hend, complain]
  · simp [hnone]

end Parser

/-- **Recovery accounts for every token and every gap.**  Take a parser anywhere in
its tokens and let it read an expression, without going too deep.  There is a
marking of the groupings of the tree for which the tree stands for exactly the
tokens that the parser has passed, and the problems added are its gaps from left
to right: one for each placeholder and one for each unclosed grouping, about the
first token that was not yet taken there.  Hence a parse of a new parser records
one problem more, that the expression should have ended, exactly if there is no
gap and the token after the tree is not the end mark. -/
theorem recovery_accounts (p : Parser) :
    (∀ r, p.readBy? .expression = .ok r → r = p.readBy .expression) ∧
      (∀ r, p.parse? = .ok r → r = p.parse) ∧
      ∃ m, p.Recovered (p.readBy .expression).1 (p.readBy .expression).2 m ∧
        ∃ next, p.tokens[(p.readBy .expression).2.position]? = some next ∧
          (p.errors = [] → p.parse.2.errors = (p.readBy .expression).2.errors ++
            if m.gaps p.position = [] ∧ next.isEnd = false then
              [.about next "Expect end of expression."]
            else []) := by
  obtain ⟨m, hm⟩ := p.readBy_recovered .expression
  refine ⟨fun _ => Parser.eq_readBy_of_readBy?_ok, fun _ => Parser.eq_parse_of_parse?_ok, m, hm,
    (p.readBy .expression).2.peek, ?_, ?_⟩
  · rw [← hm.tokens]
    exact Parser.getElem?_position _
  · intro hp
    obtain ⟨added, herrors, hgaps⟩ := hm.errors
    have hnone : m.gaps p.position = [] ↔ (p.readBy .expression).2.errors = [] := by
      have hempty : (m.gaps p.position).map (Marked.Gap.diagnostic? p.tokens) = [] ↔
          added.map some = [] := by rw [hgaps]
      rw [List.map_eq_nil_iff, List.map_eq_nil_iff] at hempty
      rw [herrors, hp, List.nil_append, hempty]
    rw [Parser.errors_parse]
    simp only [hnone]

/-- A parser at the tokens of `( * 2 3`. -/
def gapParser : Parser where
  before := []
  ahead := [⟨.symbol .leftParen, "(", 1, none⟩, ⟨.symbol .star, "*", 1, none⟩,
    ⟨.number, "2", 1, some "2"⟩, ⟨.number, "3", 1, some "3"⟩]
  stop := .endOfSource 1
  beyond := []
  errors := []
  ahead_not_end := by decide
  stop_isEnd := rfl

/-- Two gaps, before the star and before the last number, and nothing is said about
the number that is left over. -/
theorem recovery_accounts_two_gaps :
    ∃ m, gapParser.Recovered (gapParser.readBy .expression).1 (gapParser.readBy .expression).2 m ∧
      (m.gaps 0).length = 2 ∧
      gapParser.parse.2.errors.map Diagnostic.render
        = ["1: at '*' - Expect expression.", "1: at '3' - Expect ')' after expression."] := by
  obtain ⟨-, -, m, hm, next, -, hparse⟩ := recovery_accounts gapParser
  have hcount : (m.gaps 0).length = 2 := by
    obtain ⟨added, herrors, hgaps⟩ := hm.errors
    have hadded : added = (gapParser.readBy .expression).2.errors := herrors.symm
    have hlength := congrArg List.length hgaps
    rw [List.length_map, List.length_map, hadded] at hlength
    exact hlength
  have hsome : ¬ (m.gaps gapParser.position = [] ∧ next.isEnd = false) := by
    rintro ⟨hnone, -⟩
    rw [show gapParser.position = 0 from rfl] at hnone
    rw [hnone] at hcount
    cases hcount
  refine ⟨m, hm, hcount, ?_⟩
  rw [hparse rfl, if_neg hsome]
  decide

end LoxCalc
