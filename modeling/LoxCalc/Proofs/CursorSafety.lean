import LoxCalc.Proofs.DescentRules

/-!
# The index stays in range

A caller may ask anything of a parser, in any order, and even go on with it
after a reading that was nested too deeply and stopped half-way.  The list of
tokens may hold any number of end marks, as long as it ends with one.

* `Parser.perform_eq_pass`: whatever is asked, the parser passes some of the
  tokens before the first end mark and records some more problems;
* `Operation.run_descent`: the index does the same, without a look outside the
  list and without an endless repetition;
* `Reader.after_reader`: so it is after any number of calls.
-/

namespace LoxCalc

/-- What can be asked of a parser. -/
inductive Operation
  | parse
  | read (rule : Rule)
  | accept (kinds : List Kind)
  | check (kind : Kind)
  | expect (kind : Kind) (message : String)
  | complain (t : Token) (message : String)
  | synchronize
  | advance
  | peek
  | previous
  | atEnd

/-- What is answered. -/
inductive Answer
  | tree (e : Option Expr)
  | kind (kind : Kind)
  | token (t : Token)
  | truth (b : Bool)
  | nothing

/-- The answer of a parser, and the parser afterwards. -/
def Parser.perform (p : Parser) : Operation → Answer × Parser
  | .parse => (.tree p.parse.1, p.parse.2)
  | .read rule => (.tree (p.readBy rule).1, (p.readBy rule).2)
  | .accept kinds => (.truth (p.accept kinds).1, (p.accept kinds).2)
  | .check kind => (.truth (p.check kind), p)
  | .expect kind message => (.kind (p.expect kind message).1, (p.expect kind message).2)
  | .complain t message => (.nothing, p.complain t message)
  | .synchronize => (.nothing, p.synchronize)
  | .advance => (.token p.advance.1, p.advance.2)
  | .peek => (.token p.peek, p)
  | .previous => (.token p.previous, p)
  | .atEnd => (.truth p.atEnd, p)

/-- The parser after some operations. -/
def Parser.performs (p : Parser) (ops : List Operation) : Parser :=
  ops.foldl (fun p op => (p.perform op).2) p

/-- The same by recursive descent, with rules nested up to a limit. -/
def Operation.descent (n : Nat) : Operation → Descent Answer
  | .parse => return .tree (← Descent.parse n)
  | .read rule => return .tree (← Descent.rule n rule)
  | .accept kinds => return .truth (← Descent.accept kinds)
  | .check kind => return .truth (← Descent.check kind)
  | .expect kind message => return .kind (← Descent.expect kind message)
  | .complain t message => do
    Descent.complain t message
    return .nothing
  | .synchronize => do
    Descent.synchronize
    return .nothing
  | .advance => return .token (← Descent.advance)
  | .peek => return .token (← Descent.peek)
  | .previous => return .token (← Descent.previous)
  | .atEnd => return .truth (← Descent.atEnd)

/-! ## One operation -/

/-- Whatever is asked of a parser, it passes tokens and records problems. -/
theorem Parser.perform_eq_pass (p : Parser) (op : Operation) :
    ∃ k ds, (p.perform op).2 = p.pass k ds := by
  have hstay : ∃ k ds, p = p.pass k ds := ⟨0, [], p.pass_zero_nil.symm⟩
  cases op with
  | parse =>
      obtain ⟨k, ds, hread⟩ : ∃ k ds, (p.readBy .expression).2 = p.pass k ds := ⟨_, _, rfl⟩
      simp only [perform, parse, hread]
      split
      · exact ⟨k + 0, _, by rw [complain_eq_pass, pass_pass]⟩
      · exact ⟨k, ds, rfl⟩
  | read rule => exact ⟨_, _, rfl⟩
  | accept kinds =>
      simp only [perform, accept]
      split
      · exact ⟨1, [], p.move_eq_pass 1⟩
      · exact hstay
  | expect kind message =>
      simp only [perform, expect]
      split
      · exact ⟨1, [], p.move_eq_pass 1⟩
      · exact ⟨0, _, p.complain_eq_pass _ _⟩
  | complain t message => exact ⟨0, _, p.complain_eq_pass t message⟩
  | synchronize => exact ⟨_, [], p.move_eq_pass _⟩
  | advance => exact ⟨1, [], p.move_eq_pass 1⟩
  | check kind => exact hstay
  | peek => exact hstay
  | previous => exact hstay
  | atEnd => exact hstay

/-- The index does what the parser does, unless the rules are nested beyond the limit. -/
theorem Operation.run_descent (op : Operation) (n : Nat) (p : Parser) :
    (op.descent n).run p.reader = .ok (p.perform op).1 (p.perform op).2.reader ∨
      ∃ k ds, (op.descent n).run p.reader = .error .tooDeep (p.pass k ds).reader ∧
        n < 7 * p.ahead.length + 7 := by
  cases op with
  | parse =>
      simp only [descent, EStateM.run_bind]
      rcases Descent.parse_reader n p with hrun | ⟨k, ds, hrun, hdeep⟩
      · rw [hrun]
        exact .inl rfl
      · rw [hrun]
        exact .inr ⟨k, ds, rfl, hdeep⟩
  | read rule =>
      simp only [descent, EStateM.run_bind]
      rcases Descent.rule_reader n rule p with hrun | ⟨k, ds, hrun, hdeep⟩
      · rw [hrun]
        exact .inl rfl
      · rw [hrun]
        exact .inr ⟨k, ds, rfl, Nat.lt_of_lt_of_le hdeep (Nat.add_le_add_left rule.depth_le _)⟩
  | complain t message => exact .inl rfl
  | _ =>
      refine .inl ?_
      simp only [descent, EStateM.run_bind, Descent.accept_reader, Descent.check_reader,
        Descent.expect_reader, Descent.synchronize_reader, Descent.advance_reader,
        Descent.peek_reader, Descent.previous_reader, Descent.atEnd_reader]
      rfl

/-! ## Any number of operations -/

/-- A call: the limit of nesting at that time, and what is asked. -/
structure Call where
  limit : Nat
  operation : Operation

namespace Reader

/-- The reader after a call, which may have halted. -/
def call (r : Reader) (c : Call) : Reader :=
  match (c.operation.descent c.limit).run r with
  | .ok _ r' => r'
  | .error _ r' => r'

/-- The reader after some calls. -/
def after (r : Reader) (calls : List Call) : Reader :=
  calls.foldl call r

theorem after_concat (r : Reader) (calls : List Call) (c : Call) :
    r.after (calls ++ [c]) = (r.after calls).call c := by
  simp [after]

/-- A call passes tokens and records problems. -/
theorem call_reader (p : Parser) (c : Call) : ∃ k ds, p.reader.call c = (p.pass k ds).reader := by
  unfold call
  rcases c.operation.run_descent c.limit p with hrun | ⟨k, ds, hrun, -⟩
  · obtain ⟨k, ds, hpass⟩ := p.perform_eq_pass c.operation
    rw [hrun]
    exact ⟨k, ds, congrArg Parser.reader hpass⟩
  · rw [hrun]
    exact ⟨k, ds, rfl⟩

/-- So do any number of calls. -/
theorem after_reader (p : Parser) (calls : List Call) :
    ∃ k ds, p.reader.after calls = (p.pass k ds).reader := by
  induction calls generalizing p with
  | nil => exact ⟨0, [], by rw [p.pass_zero_nil]; rfl⟩
  | cons c calls ih =>
      obtain ⟨k, ds, hcall⟩ := call_reader p c
      obtain ⟨k', ds', hafter⟩ := ih (p.pass k ds)
      refine ⟨k + k', ds ++ ds', ?_⟩
      rw [← Parser.pass_pass, ← hafter, ← hcall]
      rfl

/-- A parser at the beginning of a list has the tokens before the first end mark ahead. -/
theorem exists_start {ts : List Token} (hts : ts.getLast?.any Token.isEnd = true) :
    ∃ start, Parser.ofTokens ts = .ok start ∧ start.reader = ⟨ts, 0, []⟩ ∧
      start.ahead.length = firstEnd ts ∧ firstEnd ts < ts.length := by
  obtain ⟨start, hstart, hbefore, herrors, hahead, hstop⟩ := Parser.ofTokens_of_getLast? hts
  have hlt : firstEnd ts < ts.length := (List.getElem?_eq_some_iff.mp hstop).1
  refine ⟨start, hstart, ?_, ?_, hlt⟩
  · rw [Parser.reader, Parser.tokens_ofTokens hstart, Parser.position, hbefore, herrors]
    rfl
  · rw [hahead, List.length_take, Nat.min_eq_left (Nat.le_of_lt hlt)]

/-- With room enough nothing is ever nested too deeply, and the calls are what the parser does. -/
theorem after_reader_of_limits {room : Nat} (p : Parser) (hroom : 7 * p.ahead.length + 7 ≤ room)
    (calls : List Call) (hlimits : ∀ c ∈ calls, room ≤ c.limit) :
    p.reader.after calls = (p.performs (calls.map Call.operation)).reader := by
  induction calls generalizing p with
  | nil => rfl
  | cons c calls ih =>
      obtain ⟨k, ds, hpass⟩ := p.perform_eq_pass c.operation
      have hshorter : 7 * (p.perform c.operation).2.ahead.length + 7 ≤ room := by
        rw [hpass, Parser.ahead_pass, List.length_drop]
        omega
      have hlimit : room ≤ c.limit := hlimits c List.mem_cons_self
      have hcall : p.reader.call c = (p.perform c.operation).2.reader := by
        rcases c.operation.run_descent c.limit p with hrun | ⟨-, -, -, hdeep⟩
        · rw [call, hrun]
        · omega
      have hrest := ih _ hshorter (fun c' hc' => hlimits c' (List.mem_cons_of_mem c hc'))
      rw [← hcall] at hrest
      exact hrest

/-- **The index is safe.**  Whatever was asked before of a reader at the beginning of a list that
ends with an end mark, the next operation keeps the tokens, does not move back or past the first end
mark, and keeps the problems recorded.  It answers what a parser answers, or the rules are nested
beyond the limit; there is no look outside the list and no endless repetition.  With room enough for
every call, the reader is that of a new parser which has carried out the same operations. -/
theorem index_stays_safe {ts : List Token} (hts : ts.getLast?.any Token.isEnd = true)
    (calls : List Call) (n : Nat) (op : Operation) :
    let r := after ⟨ts, 0, []⟩ calls
    let r' := after ⟨ts, 0, []⟩ (calls ++ [⟨n, op⟩])
    (r'.tokens = ts ∧ r.index ≤ r'.index ∧ r'.index ≤ firstEnd ts ∧ firstEnd ts < ts.length ∧
      r.errors <+: r'.errors) ∧
    (∃ p : Parser, p.reader = r ∧
      ((op.descent n).run r = .ok (p.perform op).1 (p.perform op).2.reader ∨
        (op.descent n).run r = .error .tooDeep r' ∧ n < 7 * firstEnd ts + 7)) ∧
    ∃ start, Parser.ofTokens ts = .ok start ∧
      ((∀ c ∈ calls, 7 * firstEnd ts + 7 ≤ c.limit) →
        (start.performs (calls.map Call.operation)).reader = r) := by
  intro r r'
  obtain ⟨start, hstart, hreader, hahead, hlt⟩ := exists_start hts
  obtain ⟨k, ds, hafter⟩ := after_reader start calls
  obtain ⟨k', ds', hcall⟩ := call_reader (start.pass k ds) ⟨n, op⟩
  have hr : r = (start.pass k ds).reader := by rw [← hafter, hreader]
  have hr' : r' = ((start.pass k ds).pass k' ds').reader := by
    rw [← hcall, ← hr]
    exact after_concat _ _ _
  have hposition : start.position = 0 := congrArg Reader.index hreader
  have hlength : (start.pass k ds).ahead.length ≤ firstEnd ts := by
    rw [Parser.ahead_pass, List.length_drop, hahead]
    exact Nat.sub_le _ _
  refine ⟨⟨?_, ?_, ?_, hlt, ?_⟩, ⟨start.pass k ds, hr.symm, ?_⟩, start, hstart, ?_⟩
  · rw [hr', Parser.reader, Parser.tokens_pass, Parser.tokens_pass]
    exact congrArg Reader.tokens hreader
  · rw [hr, hr', Parser.reader, Parser.reader, (start.pass k ds).position_pass]
    exact Nat.le_add_right _ _
  · rw [hr', Parser.pass_pass, Parser.reader, Parser.position_pass, hposition, hahead, Nat.zero_add]
    exact Nat.min_le_right _ _
  · rw [hr, hr']
    exact List.prefix_append _ ds'
  · rcases op.run_descent n (start.pass k ds) with hrun | ⟨k₁, ds₁, hrun, hdeep⟩
    · exact .inl (hr ▸ hrun)
    · -- the reader is left where the operation stopped
      have hstopped : r' = ((start.pass k ds).pass k₁ ds₁).reader := by
        rw [hr', ← hcall, call, hrun]
      exact .inr ⟨by rw [hr, hrun, hstopped], by omega⟩
  · intro hlimits
    have hroom : 7 * start.ahead.length + 7 ≤ 7 * firstEnd ts + 7 := hahead ▸ Nat.le_refl _
    rw [← after_reader_of_limits start hroom calls hlimits, hreader]

/-- An opening parenthesis and a minus before the first of two end marks. -/
def twoEnds : List Token :=
  [⟨.symbol .leftParen, "(", 1, none⟩, ⟨.symbol .minus, "-", 1, none⟩, ⟨.eof, "", 1, none⟩,
    ⟨.symbol .semicolon, ";", 2, none⟩, ⟨.eof, "", 2, none⟩]

/-- A parse stops after the parenthesis, where rules are nested beyond the limit; synchronizing goes
on from there, up to the first end mark. -/
theorem index_stays_safe_two_ends :
    twoEnds.getLast?.any Token.isEnd = true ∧ firstEnd twoEnds = 2 ∧
      (after ⟨twoEnds, 0, []⟩ [⟨9, .parse⟩]).index = 1 ∧
      1 ≤ (after ⟨twoEnds, 0, []⟩ [⟨9, .parse⟩, ⟨0, .synchronize⟩]).index ∧
      (after ⟨twoEnds, 0, []⟩ [⟨9, .parse⟩, ⟨0, .synchronize⟩]).index ≤ 2 := by
  have hend : twoEnds.getLast?.any Token.isEnd = true := by decide
  have hindex : (after ⟨twoEnds, 0, []⟩ [⟨9, .parse⟩]).index = 1 := by decide
  obtain ⟨⟨-, hforward, hfirst, -, -⟩, -, -⟩ :=
    index_stays_safe hend [⟨9, .parse⟩] 0 .synchronize
  exact ⟨hend, by decide, hindex, hindex ▸ hforward, hfirst⟩

end Reader

end LoxCalc
