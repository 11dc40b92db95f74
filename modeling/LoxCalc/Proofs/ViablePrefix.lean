import LoxCalc.Proofs.Parsing
import Mathlib.Data.List.Induction

/-!
# The first problem is at the earliest offending token

A sequence of tokens is **viable** if some sentence begins with it.  A parse
looks at one token after the other, so the first problem it records should be
about the first token that makes the tokens so far unviable, or about the end
mark if the tokens are viable to the end but no sentence.

* **Before the problem** (`Builder.Takes.viable`).  What a builder has taken
  without a problem can be completed: a missing operand is put in, and what is
  pending is closed from the inside to the outside.
* **At the problem** (`Builder.Takes.not_viable`).  A sentence is taken token by
  token without a problem, so none begins with tokens of which the last one is
  refused or costs a problem.

`parse_correct_prefix` puts the two together for any list of tokens.
-/

namespace LoxCalc

/-- The tokens are derived as an expression. -/
def Sentence (w : List Token) : Prop :=
  ∃ e, Derives .expression w e

/-- Some sentence begins with the tokens. -/
def Viable (w : List Token) : Prop :=
  ∃ v, Sentence (w ++ v)

namespace Viable

variable {u v w : List Token}

/-- A sentence is viable as it is. -/
theorem of_sentence (h : Sentence w) : Viable w :=
  ⟨[], by rwa [List.append_nil]⟩

/-- Fewer tokens stay viable. -/
theorem of_append (h : Viable (u ++ v)) : Viable u := by
  obtain ⟨rest, hrest⟩ := h
  exact ⟨v ++ rest, by rwa [← List.append_assoc]⟩

theorem of_take_le {i j : Nat} (h : Viable (w.take j)) (hij : i ≤ j) : Viable (w.take i) := by
  apply of_append (v := (w.take j).drop i)
  have htake : (w.take j).take i = w.take i := by
    rw [List.take_take, Nat.min_eq_left hij]
  rwa [← htake, List.take_append_drop]

end Viable

/-! ## Before the problem -/

/-- **What is pending can be completed** as soon as it has the operand that it
waits for: each grouping on the stack takes one closing parenthesis. -/
theorem Pending.viable {stack : List Frame} {u : List Token} (hs : Pending stack u)
    {c : Category} {w : List Token} {e : Expr} (he : Derives c w e) (hopen : Open c.rank stack) :
    Viable (u ++ w) := by
  induction hs generalizing c w e with
  | nil =>
      apply Viable.of_sentence
      exact ⟨e, (he.loosen (Nat.zero_le _)).expression⟩
  | @group stack u hs t ht ih =>
      have hinner : Derives .expression w e := (he.loosen (Nat.zero_le _)).expression
      have hgroup : Derives .primary (t :: w ++ [⟨.symbol .rightParen, ")", 1, none⟩])
          (.grouping e) := .group ht hinner rfl
      have hviable := ih hgroup (open_four stack)
      apply Viable.of_append
      simpa using hviable
  | @unary stack u hs op hop ih =>
      have hprefixed : Derives .unary (op :: w) (.unary op e) := (he.unary hopen).prefixed hop
      have hviable := ih hprefixed (open_four stack)
      simpa using hviable
  | @binary stack u v left level hs hlevel hleft op hop ih =>
      have hjoin : Derives (.chain level) (v ++ op :: w) (.binary left op e) :=
        hleft.join hop (he.operand hopen)
      have hviable := ih hjoin hlevel
      simpa using hviable

namespace Builder

/-- What a builder has derived and what is pending on its stack are viable
together. -/
theorem Reads.viable {b : Builder} {w : List Token} (h : b.Reads w) : Viable w := by
  cases hoperand : b.operand with
  | some e =>
      obtain ⟨u, v, hpending, hprimary, rfl⟩ :
          ∃ u v, Pending b.stack u ∧ Derives .primary v e ∧ w = u ++ v := by
        simpa [Reads, hoperand] using h
      exact hpending.viable hprimary (open_four b.stack)
  | none =>
      have hpending : Pending b.stack w := by simpa [Reads, hoperand] using h
      -- any literal will do for the operand that is missing
      have hnil : Derives .primary [⟨.keyword .nilWord, "nil", 1, none⟩]
          (.literal (.keyword .nilWord) none) := .literal rfl
      exact (hpending.viable hnil (open_four b.stack)).of_append

/-- The builder takes all of the tokens from the start, without a problem, and
is left in the state `b`. -/
def Takes (w : List Token) (b : Builder) : Prop :=
  run 0 {} w = (b, []) ∧ b.errors = []

/-- The token is refused or costs a problem. -/
def Offends (b : Builder) (t : Token) : Prop :=
  ∀ b', b.step 0 t = some b' → b'.errors ≠ b.errors

/-- A run that takes all of its tokens can be continued. -/
theorem run_append {floor : Nat} {b b' : Builder} {u : List Token}
    (h : run floor b u = (b', [])) (v : List Token) :
    run floor b (u ++ v) = run floor b' v := by
  induction u generalizing b with
  | nil =>
      obtain ⟨rfl, -⟩ := Prod.ext_iff.mp h
      rfl
  | cons t u ih =>
      cases hstep : b.step floor t with
      | none => simp [run, hstep] at h
      | some b'' =>
          rw [run_cons hstep] at h
          rw [List.cons_append, run_cons hstep]
          exact ih h

/-- The problems met while finishing come after those met before. -/
theorem errors_finish_isPrefix (b : Builder) (next : Token) :
    b.errors <+: (b.finish next).2 := by
  unfold finish
  split
  · rw [errors_close]
    exact List.prefix_append _ _
  · rw [errors_close, complain, List.append_assoc]
    exact List.prefix_append _ _

namespace Takes

variable {w : List Token} {b b' : Builder} {t : Token}

theorem nil : Takes [] {} := ⟨rfl, rfl⟩

/-- One more token is taken. -/
theorem concat (h : Takes w b) (hstep : b.step 0 t = some b') (herrors : b'.errors = b.errors) :
    Takes (w ++ [t]) b' := by
  refine ⟨?_, herrors.trans h.2⟩
  rw [run_append h.1, run_cons hstep]
  rfl

/-- What has been taken has been derived, up to what is pending. -/
theorem reads (h : Takes w b) : b.Reads w := by
  have hnone : (run 0 {} w).1.errors = ({} : Builder).errors := by rw [h.1, h.2]
  obtain ⟨taken, hw, hreads⟩ := Reads.run (b := {}) (w := []) Pending.nil w hnone
  rw [h.1] at hw hreads
  rw [List.append_nil] at hw
  rwa [List.nil_append, ← hw] at hreads

/-- **What has been taken without a problem is viable.** -/
theorem viable (h : Takes w b) : Viable w :=
  h.reads.viable

/-- **No sentence begins with tokens of which the last one offends.** -/
theorem not_viable (h : Takes w b) (ht : b.Offends t) : ¬ Viable (w ++ [t]) := by
  rintro ⟨v, e, hderives⟩
  have hread := read_of_derives hderives t
  have hrun : run 0 {} (w ++ [t] ++ v) = run 0 b (t :: v) := by
    rw [List.append_assoc, run_append h.1, List.singleton_append]
  rw [read_expression, hrun] at hread
  have hrest : (run 0 b (t :: v)).2 = [] := congrArg Reading.rest hread
  cases hstep : b.step 0 t with
  | none => simp [run, hstep] at hrest
  | some b' =>
      rw [run_cons hstep] at hread
      have hfinished : ((run 0 b' v).1.finish ((run 0 b' v).2.headD t)).2 = [] :=
        congrArg Reading.errors hread
      have hkept := (errors_run_isPrefix 0 b' v).trans
        (errors_finish_isPrefix _ ((run 0 b' v).2.headD t))
      rw [hfinished, List.prefix_nil] at hkept
      exact ht b' hstep (hkept.trans h.2.symm)

end Takes

/-- **Every sequence of tokens is taken to its end or up to an offending token.** -/
theorem takes_or_offends (ts : List Token) :
    (∃ b, Takes ts b) ∨
      ∃ w t rest b, ts = w ++ t :: rest ∧ Takes w b ∧ b.Offends t := by
  induction ts using List.reverseRecOn with
  | nil => exact .inl ⟨{}, Takes.nil⟩
  | append_singleton ts t ih =>
      rcases ih with ⟨b, hb⟩ | ⟨w, u, rest, b, rfl, hb, hu⟩
      · cases hstep : b.step 0 t with
        | none =>
            have hrefused : b.Offends t := by
              intro b' hb'
              rw [hstep] at hb'
              cases hb'
            exact .inr ⟨ts, t, [], b, rfl, hb, hrefused⟩
        | some b' =>
            by_cases herrors : b'.errors = b.errors
            · exact .inl ⟨b', hb.concat hstep herrors⟩
            · have hcostly : b.Offends t := by
                intro b'' hb''
                rw [hstep] at hb''
                cases hb''
                exact herrors
              exact .inr ⟨ts, t, [], b, rfl, hb, hcostly⟩
      · exact .inr ⟨w, u, rest ++ [t], b, by simp, hb, hu⟩

/-! ## The first problem -/

/-- The first problem of a builder that is finished without any before is about
the token that ended the expression. -/
theorem token_of_head?_finish {b : Builder} (hb : b.errors = []) {next : Token} {d : Diagnostic}
    (h : (b.finish next).2.head? = some d) : d.token = some next := by
  unfold finish at h
  split at h
  · rw [errors_close, hb, List.nil_append, List.head?_replicate] at h
    split at h
    · cases h
    · cases h
      rfl
  · rw [errors_close] at h
    simp only [complain, hb, List.nil_append, List.cons_append, List.head?_cons,
      Option.some.injEq] at h
    subst h
    rfl

end Builder

namespace Parser

variable {p : Parser} {d : Diagnostic}

/-- Where nothing is left over, the problems are those of the reading. -/
theorem errors_judge_of_rest_nil (e : Expr) (errors : List Diagnostic) :
    (judge ⟨e, errors, []⟩).2 = errors := by
  cases errors <;> rfl

/-- If all tokens are taken, the first problem is about the end mark. -/
theorem token_of_takes (hp : p.errors = []) {b : Builder} (hb : Builder.Takes p.ahead b)
    (hd : p.parse.2.errors.head? = some d) : d.token = some p.stop := by
  have hread : read .expression p.ahead p.stop
      = ⟨(b.finish p.stop).1, (b.finish p.stop).2, []⟩ := by
    rw [read_expression, hb.1]
    rfl
  have herrors : p.parse.2.errors = (b.finish p.stop).2 := by
    have hjudge := congrArg Prod.snd (parse_judge hp)
    rw [hread] at hjudge
    exact hjudge.trans (errors_judge_of_rest_nil _ _)
  rw [herrors] at hd
  exact Builder.token_of_head?_finish hb.2 hd

/-- If a token offends, the first problem is about that token. -/
theorem token_of_offends (hp : p.errors = []) {w rest : List Token} {t : Token} {b : Builder}
    (hahead : p.ahead = w ++ t :: rest) (hb : Builder.Takes w b) (ht : b.Offends t)
    (hd : p.parse.2.errors.head? = some d) : d.token = some t := by
  have hrun : Builder.run 0 {} p.ahead = Builder.run 0 b (t :: rest) := by
    rw [hahead, Builder.run_append hb.1]
  have hjudge := congrArg Prod.snd (parse_judge hp)
  rw [show p.parse.2.errors = _ from hjudge] at hd
  cases hstep : b.step 0 t with
  | none =>
      -- the token ends the expression, properly or not
      have hread : read .expression p.ahead p.stop
          = ⟨(b.finish t).1, (b.finish t).2, t :: rest⟩ := by
        rw [read_expression, hrun]
        simp [Builder.run, hstep]
      rw [hread] at hd
      cases hfinish : (b.finish t).2 with
      | nil =>
          rw [hfinish] at hd
          cases hd
          rfl
      | cons d' ds =>
          rw [hfinish] at hd
          cases hd
          exact Builder.token_of_head?_finish hb.2 (by rw [hfinish, List.head?_cons])
  | some b' =>
      -- the operand before the token is missing, and nothing was wrong before
      have hfirst : b'.errors = [.about t "Expect expression."] := by
        rcases Builder.errors_step hstep with hsame | ⟨-, -, hmore⟩
        · exact absurd hsame (ht b' hstep)
        · rw [hmore, hb.2, List.nil_append]
      have hkept : b'.errors <+: (read .expression p.ahead p.stop).errors := by
        rw [read_expression, hrun, Builder.run_cons hstep]
        exact (Builder.errors_run_isPrefix 0 b' rest).trans (Builder.errors_finish_isPrefix _ _)
      rw [hfirst] at hkept
      obtain ⟨later, hlater⟩ := hkept
      rw [judge, ← hlater] at hd
      cases hd
      rfl

end Parser

/-- The diagnostic is about the earliest offending token of a list, which is the
one at the index `i`: the tokens before it are viable, and with it they are not
or, if it is the first end mark, they are no sentence. -/
structure Earliest (ts : List Token) (d : Diagnostic) (i : Nat) : Prop where
  le_firstEnd : i ≤ firstEnd ts
  token : ∃ t, ts[i]? = some t ∧ d.token = some t
  viable : Viable (ts.take i)
  not_viable : i < firstEnd ts → ¬ Viable (ts.take (i + 1))
  not_sentence : i = firstEnd ts → ¬ Sentence (ts.take (firstEnd ts))

namespace Earliest

variable {ts : List Token} {d d' : Diagnostic} {b : Builder}

/-- There is only one earliest offending token. -/
theorem unique {i j : Nat} (hi : Earliest ts d i) (hj : Earliest ts d' j) : i = j := by
  by_contra hne
  rcases Nat.lt_or_gt_of_ne hne with hlt | hlt
  · exact hi.not_viable (Nat.lt_of_lt_of_le hlt hj.le_firstEnd) (hj.viable.of_take_le hlt)
  · exact hj.not_viable (Nat.lt_of_lt_of_le hlt hi.le_firstEnd) (hi.viable.of_take_le hlt)

/-- If all tokens are taken and they are no sentence, the end mark offends. -/
theorem of_takes {stop : Token} (hstop : ts[firstEnd ts]? = some stop)
    (hb : Builder.Takes (ts.take (firstEnd ts)) b) (hd : d.token = some stop)
    (hfails : ¬ Sentence (ts.take (firstEnd ts))) : Earliest ts d (firstEnd ts) where
  le_firstEnd := Nat.le_refl _
  token := ⟨stop, hstop, hd⟩
  viable := hb.viable
  not_viable hlt := absurd hlt (Nat.lt_irrefl _)
  not_sentence _ := hfails

/-- A token that is refused or costs a problem offends. -/
theorem of_offends {w rest : List Token} {t : Token}
    (htake : ts.take (firstEnd ts) = w ++ t :: rest) (hb : Builder.Takes w b) (ht : b.Offends t)
    (hd : d.token = some t) : Earliest ts d w.length := by
  have hlt : w.length < firstEnd ts := by
    have hlength := congrArg List.length htake
    rw [List.length_take, List.length_append, List.length_cons] at hlength
    omega
  have hbefore : ts.take w.length = w := by
    have hcut := congrArg (List.take w.length) htake
    rwa [List.take_take, Nat.min_eq_left (Nat.le_of_lt hlt), List.take_left] at hcut
  have hget : ts[w.length]? = some t := by
    have hat := congrArg (fun l => l[w.length]?) htake
    simpa [List.getElem?_take, hlt] using hat
  have hwith : ts.take (w.length + 1) = w ++ [t] := by
    rw [List.take_add_one, hbefore, hget]
    rfl
  refine ⟨Nat.le_of_lt hlt, ⟨t, hget, hd⟩, ?_, ?_, ?_⟩
  · rw [hbefore]
    exact hb.viable
  · intro _
    rw [hwith]
    exact hb.not_viable ht
  · intro heq
    omega

end Earliest

/-- **The first problem is at the earliest offending token.**  Take any list of
tokens that ends with an end mark.  A parse records a problem exactly if the
tokens before the first end mark are no sentence, and the first problem is
about the earliest offending token, of which there is one only. -/
theorem parse_correct_prefix (ts : List Token) (hts : ts.getLast?.any Token.isEnd = true) :
    ∃ p, Parser.ofTokens ts = .ok p ∧
      (∀ r, p.parse? = .ok r → r = p.parse) ∧
      (p.parse.2.errors ≠ [] ↔ ¬ Sentence (ts.take (firstEnd ts))) ∧
      ∀ d, p.parse.2.errors.head? = some d → ∃! i, Earliest ts d i := by
  obtain ⟨p, hp, -, herrors, hahead, hstop⟩ := Parser.ofTokens_of_getLast? hts
  have hsentence : p.parse.2.errors = [] ↔ Sentence (ts.take (firstEnd ts)) := by
    rw [Parser.errors_parse_eq_nil_iff, ← hahead]
    exact exists_congr fun e => Parser.parse_eq_some_iff herrors
  refine ⟨p, hp, fun _ => Parser.eq_parse_of_parse?_ok, not_congr hsentence, ?_⟩
  intro d hd
  have hfails : ¬ Sentence (ts.take (firstEnd ts)) := by
    rw [← hsentence]
    intro hnil
    rw [hnil] at hd
    cases hd
  have hearliest : ∃ i, Earliest ts d i := by
    rcases Builder.takes_or_offends p.ahead with ⟨b, hb⟩ | ⟨w, t, rest, b, hsplit, hb, ht⟩
    · have htoken := Parser.token_of_takes herrors hb hd
      rw [hahead] at hb
      exact ⟨firstEnd ts, .of_takes hstop hb htoken hfails⟩
    · have htoken := Parser.token_of_offends herrors hsplit hb ht hd
      rw [hahead] at hsplit
      exact ⟨w.length, .of_offends hsplit hb ht htoken⟩
  obtain ⟨i, hi⟩ := hearliest
  exact ⟨i, hi, fun j hj => hj.unique hi⟩

/-- The tokens of `(1 + * 2`, in which an operand and a parenthesis are missing,
and an end mark. -/
def starTokens : List Token :=
  [⟨.symbol .leftParen, "(", 1, none⟩, ⟨.number, "1", 1, some "1"⟩, ⟨.symbol .plus, "+", 1, none⟩,
    ⟨.symbol .star, "*", 2, none⟩, ⟨.number, "2", 2, some "2"⟩, .endOfSource 3]

/-- The first problem with these tokens is about the star. -/
theorem parse_correct_prefix_star :
    starTokens.getLast?.any Token.isEnd = true ∧
      ∃ p, Parser.ofTokens starTokens = .ok p ∧
        p.parse.2.errors.map Diagnostic.render
          = ["2: at '*' - Expect expression.", "3: at end - Expect ')' after expression."] ∧
        ∃ d, p.parse.2.errors.head? = some d ∧ Earliest starTokens d 3 := by
  have hend : starTokens.getLast?.any Token.isEnd = true := by decide
  obtain ⟨p, hp, -, -, hfirst⟩ := parse_correct_prefix starTokens hend
  cases hp
  refine ⟨hend, _, rfl, ?_, _, rfl, ?_⟩
  · decide
  · obtain ⟨i, hi, -⟩ := hfirst _ rfl
    obtain ⟨t, hget, htoken⟩ := hi.token
    cases htoken
    have hstar : ∀ j ≤ 5, starTokens[j]? = some ⟨.symbol .star, "*", 2, none⟩ → j = 3 := by decide
    rwa [hstar i hi.le_firstEnd hget] at hi

end LoxCalc
