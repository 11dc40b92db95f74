import LoxCalc.Expr.Eval
import LoxCalc.Proofs.Grammar
import LoxCalc.Proofs.Numerals
import LoxCalc.Proofs.Scanning

/-!
# Expressions that were read from a text

A tree may be built that has no value and cannot even be shown: with a literal
of the wrong kind, with a number that is no numeral, or with an operator that
nobody knows.  A tree that is derived from the tokens of a source text is
**sound**: none of this occurs in it.

* `Derivation.sound`: what is derived from tokens of a text is sound;
* `Expr.Sound.eval_settles`: evaluating a sound tree gives a value that can be
  printed, or a complaint about one of its own operators;
* `Expr.Sound.echo_ok`: a sound tree can be shown.
-/

namespace LoxCalc

/-- The token belongs to a segment of some text. -/
def Token.Lexed (t : Token) : Prop :=
  ∃ s rest, Lexical s.cls s.text rest ∧ Gives s t

/-- The operators of a tree from left to right. -/
def Expr.operators : Expr → List Token
  | literal _ _ => []
  | grouping e => e.operators
  | unary op e => op :: e.operators
  | binary l op r => l.operators ++ op :: r.operators

/-- The literals of the tree have values and its operators are known. -/
inductive Expr.Sound : Expr → Prop
  | number {cs rest : List Char} (h : Lexical .number cs rest) :
      Sound (.literal .number (some (String.ofList cs)))
  | string (text : String) : Sound (.literal .string (some text))
  | keyword {k : Keyword} (hk : Kind.keyword k ∈ literalKinds) :
      Sound (.literal (.keyword k) none)
  | grouping {e : Expr} (he : Sound e) : Sound (.grouping e)
  | unary {op : Token} {e : Expr} (hop : op.kind ∈ unaryOperators) (he : Sound e) :
      Sound (.unary op e)
  | binary {l r : Expr} {op : Token} {level : Level} (hl : Sound l)
      (hop : op.kind ∈ level.operators) (hr : Sound r) : Sound (.binary l op r)

/-! ## Soundness of what is derived -/

/-- A literal token of a text gives a sound literal. -/
theorem Token.Lexed.sound_literal {t : Token} (h : t.Lexed) (ht : t.kind ∈ literalKinds) :
    (Expr.literal t.kind t.literal).Sound := by
  obtain ⟨s, rest, hlexical, hgives⟩ := h
  cases hgives with
  | string => exact .string _
  | number => exact .number hlexical
  | keyword k => exact .keyword ht
  | identifier hword => simp [literalKinds] at ht
  | symbol => simp [literalKinds] at ht

/-- A token of a text is no end mark. -/
theorem Token.Lexed.isEnd_eq {t : Token} (h : t.Lexed) : t.isEnd = false := by
  obtain ⟨s, rest, -, hgives⟩ := h
  cases hgives <;> rfl

/-- **What is derived from the tokens of a text is sound.** -/
theorem Derivation.sound {c : Category} (d : Derivation c) (h : ∀ t ∈ d.yield, t.Lexed) :
    d.tree.Sound := by
  induction d with
  | expression d ih => exact ih h
  | single d ih => exact ih h
  | join left op hop right ihl ihr =>
      simp only [yield, List.mem_append, List.mem_cons] at h
      exact .binary (ihl fun t ht => h t (.inl ht)) hop (ihr fun t ht => h t (.inr (.inr ht)))
  | plain d ih => exact ih h
  | prefixed op hop right ih => exact .unary hop (ih fun t ht => h t (List.mem_cons_of_mem _ ht))
  | literal t ht => exact (h t List.mem_cons_self).sound_literal ht
  | group opening ho inner closing hc ih =>
      simp only [yield, List.cons_append, List.mem_cons, List.mem_append] at h
      exact .grouping (ih fun t ht => h t (.inr (.inl ht)))

/-! ## Evaluation -/

/-- An evaluation settles on a value that can be printed, or on a complaint
about one of the given operators. -/
inductive Settles (ops : List Token) : Except Fault Value → Prop
  | value {v : Value} {text : String} (hv : v.text = .ok text) : Settles ops (.ok v)
  | complaint {op : Token} (hop : op ∈ ops) (message : String) :
      Settles ops (.error (Value.typeError op message))

namespace Settles

variable {ops ops' : List Token} {r : Except Fault Value}

theorem mono (h : Settles ops r) (hops : ∀ op ∈ ops, op ∈ ops') : Settles ops' r := by
  cases h with
  | value hv => exact .value hv
  | complaint hop message => exact .complaint (hops _ hop) message

/-- Going on from a value that can be printed. -/
theorem bind {f : Value → Except Fault Value} (h : Settles ops r)
    (hf : ∀ v text, v.text = .ok text → Settles ops (f v)) : Settles ops (r >>= f) := by
  cases h with
  | value hv => exact hf _ _ hv
  | complaint hop message => exact .complaint hop message

end Settles

namespace Expr

variable {op : Token} {a b : Value}

/-- A unary operator settles on any operand. -/
theorem settles_applyUnary (hop : op.kind ∈ unaryOperators) (v : Value) :
    Settles [op] (applyUnary op v) := by
  have hself : op ∈ [op] := List.mem_singleton_self op
  simp only [unaryOperators, List.mem_cons, List.not_mem_nil, or_false] at hop
  rcases hop with hop | hop
  · simp only [applyUnary, hop]
    cases v with
    | bool x => exact .value rfl
    | _ => exact .complaint hself _
  · simp only [applyUnary, hop]
    cases v with
    | number x => exact .value rfl
    | _ => exact .complaint hself _

/-- Two numbers are taken, or there is a complaint about the operator. -/
theorem asNumbers_cases (op : Token) (a b : Value) :
    (∃ xy, Value.asNumbers op a b = .ok xy) ∨
      ∃ message, Value.asNumbers op a b = .error (Value.typeError op message) := by
  cases a with
  | number x =>
      cases b with
      | number y => exact .inl ⟨_, rfl⟩
      | _ => exact .inr ⟨_, rfl⟩
  | _ => exact .inr ⟨_, rfl⟩

/-- An operation on two numbers settles on any operands. -/
theorem settles_map_asNumbers {f : Float × Float → Value}
    (hf : ∀ xy, ∃ text, (f xy).text = .ok text) (op : Token) (a b : Value) :
    Settles [op] ((Value.asNumbers op a b).map f) := by
  rcases asNumbers_cases op a b with ⟨xy, h⟩ | ⟨message, h⟩ <;> rw [h]
  · obtain ⟨text, htext⟩ := hf xy
    exact .value htext
  · exact .complaint (List.mem_singleton_self op) message

theorem settles_arithmetic (f : Float → Float → Float) (op : Token) (a b : Value) :
    Settles [op] (arithmetic f op a b) :=
  settles_map_asNumbers (fun _ => ⟨_, rfl⟩) op a b

theorem settles_comparison (f : Float → Float → Bool) (op : Token) (a b : Value) :
    Settles [op] (comparison f op a b) :=
  settles_map_asNumbers (fun _ => ⟨_, rfl⟩) op a b

/-- Values that can be printed are added, joined or refused. -/
theorem settles_sum (op : Token) {s t : String} (ha : a.text = .ok s) (hb : b.text = .ok t) :
    Settles [op] (sum op a b) := by
  have hself : op ∈ [op] := List.mem_singleton_self op
  cases a with
  | number x =>
      cases b with
      | number y => exact .value rfl
      | _ => exact .complaint hself _
  | string u =>
      cases b with
      | string v =>
          -- a string that can be printed has a text, and so the two can be joined
          cases u with
          | none => cases ha
          | some u =>
              cases v with
              | none => cases hb
              | some v => exact .value rfl
      | _ => exact .complaint hself _
  | _ => exact .complaint hself _

/-- A binary operator settles on operands that can be printed. -/
theorem settles_applyBinary {level : Level} (hop : op.kind ∈ level.operators) {s t : String}
    (ha : a.text = .ok s) (hb : b.text = .ok t) : Settles [op] (applyBinary op a b) := by
  cases level with
  | equality =>
      simp only [Level.operators, List.mem_cons, List.not_mem_nil, or_false] at hop
      rcases hop with hop | hop <;> simp only [applyBinary, hop] <;> exact .value rfl
  | comparison =>
      simp only [Level.operators, List.mem_cons, List.not_mem_nil, or_false] at hop
      rcases hop with hop | hop | hop | hop <;> simp only [applyBinary, hop] <;>
        exact settles_comparison _ op a b
  | term =>
      simp only [Level.operators, List.mem_cons, List.not_mem_nil, or_false] at hop
      rcases hop with hop | hop <;> simp only [applyBinary, hop]
      · exact settles_arithmetic _ op a b
      · exact settles_sum op ha hb
  | factor =>
      simp only [Level.operators, List.mem_cons, List.not_mem_nil, or_false] at hop
      rcases hop with hop | hop <;> simp only [applyBinary, hop] <;>
        exact settles_arithmetic _ op a b

/-- Nothing but the height keeps an evaluation from going on to its end. -/
theorem eval?_cases (e : Expr) :
    e.eval? = e.eval ∨ (e.eval? = .error .tooDeep ∧ levels 3 < e.height) := by
  by_cases hheight : e.height ≤ levels 3
  · exact .inl (evalWithin_of_height_le hheight)
  · rcases evalWithin_eq_or (levels 3) e with hdeep | heval
    · exact .inr ⟨hdeep, Nat.lt_of_not_le hheight⟩
    · exact .inl heval

namespace Sound

variable {e : Expr}

/-- **Evaluating a sound tree settles**: there is a value that can be printed, or
a complaint about an operator of the tree. -/
theorem eval_settles (h : e.Sound) : Settles e.operators e.eval := by
  induction h with
  | number hcs =>
      obtain ⟨x, hx⟩ := Numeral.read?_of_lexical hcs
      simp only [eval, evalLiteral, numberOfText, hx]
      exact .value rfl
  | string text => exact .value rfl
  | @keyword k hk =>
      rcases Token.keyword_mem_literalKinds.mp hk with rfl | rfl | rfl <;> exact .value rfl
  | grouping he ih => exact ih
  | @unary op e hop he ih =>
      rw [eval, operators]
      refine (ih.mono fun op' h => List.mem_cons_of_mem _ h).bind ?_
      intro v text hv
      exact (settles_applyUnary hop v).mono (by simp)
  | @binary l r op level hl hop hr ihl ihr =>
      rw [eval, operators]
      refine (ihl.mono fun op' h => List.mem_append_left _ h).bind ?_
      intro a s ha
      refine (ihr.mono fun op' h => by simp [h]).bind ?_
      intro b t hb
      exact (settles_applyBinary hop ha hb).mono (by simp)

/-- **A sound tree can be shown.** -/
theorem echo_ok (h : e.Sound) : ∃ text, e.echo = .ok text := by
  induction h with
  | number hcs =>
      obtain ⟨x, hx⟩ := Numeral.read?_of_lexical hcs
      simp only [echo, echoLiteral, numberOfText, hx]
      exact ⟨_, rfl⟩
  | string text => exact ⟨_, rfl⟩
  | keyword hk => exact ⟨_, rfl⟩
  | grouping he ih =>
      obtain ⟨inner, hinner⟩ := ih
      rw [echo, hinner]
      exact ⟨_, rfl⟩
  | unary hop he ih =>
      obtain ⟨right, hright⟩ := ih
      rw [echo, hright]
      exact ⟨_, rfl⟩
  | binary hl hop hr ihl ihr =>
      obtain ⟨left, hleft⟩ := ihl
      obtain ⟨right, hright⟩ := ihr
      rw [echo, hleft, hright]
      exact ⟨_, rfl⟩

/-- Nothing but the height keeps a sound tree from being shown. -/
theorem echo?_cases (h : e.Sound) :
    ∃ text, e.echo = .ok text ∧
      (e.echo? = .ok text ∨ e.echo? = .error .tooDeep ∧ levels 4 < e.height) := by
  obtain ⟨text, htext⟩ := h.echo_ok
  refine ⟨text, htext, ?_⟩
  unfold echo?
  by_cases hheight : e.height ≤ levels 4
  · left
    rw [echoWithin_of_height_le hheight, htext]
    rfl
  · rcases echoWithin_eq_or (levels 4) e with hdeep | hshown
    · exact .inr ⟨hdeep, Nat.lt_of_not_le hheight⟩
    · left
      rw [hshown, htext]
      rfl

/-- A walk that cannot go down through all levels of a sound tree reaches a place
that is too deep: nothing else stops it before. -/
theorem echoWithin_of_lt_height (h : e.Sound) {n : Nat} (hn : n < e.height) :
    e.echoWithin n = .error .tooDeep := by
  rw [← Nat.not_le] at hn
  induction h generalizing n with
  | number _ | string _ | keyword _ =>
      obtain rfl : n = 0 := Nat.lt_one_iff.mp (Nat.lt_of_not_le hn)
      rfl
  | grouping he ih =>
      cases n with
      | zero => rfl
      | succ n =>
          rw [height_grouping_le_iff] at hn
          rw [echoWithin, ih hn]
          rfl
  | unary hop he ih =>
      cases n with
      | zero => rfl
      | succ n =>
          rw [height_unary_le_iff] at hn
          rw [echoWithin, ih hn]
          rfl
  | @binary l r op level hl hop hr ihl ihr =>
      cases n with
      | zero => rfl
      | succ n =>
          rw [height_binary_le_iff] at hn
          rw [echoWithin]
          by_cases hleft : l.height ≤ n
          · -- the left operand is shown, so it is the right one that is too high
            obtain ⟨left, hecho⟩ := hl.echo_ok
            rw [echoWithin_of_height_le hleft, hecho, ihr fun hright => hn ⟨hleft, hright⟩]
            rfl
          · rw [ihl hleft]
            rfl

end Sound

end Expr

end LoxCalc
