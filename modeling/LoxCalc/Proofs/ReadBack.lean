import LoxCalc.Proofs.Safety
import LoxCalc.Proofs.Writing

/-!
# Writing expressions down and reading them back

Any tree can be written down, not only one that the grammar derives: each
operand that is itself an operator with operands is put in parentheses first.
What is written is the yield of that tree, with a blank between any two tokens.

* **Reading** (`Expr.Writable.reads`).  Operands are literals or groupings then,
  so they are derived as primaries and fit under every operator; reading gives
  the same tree again, up to the lines of its operators.
* **Meaning** (`Expr.eval_parenthesized`, `Expr.eval_unplaced`).  Parentheses do
  not change what a tree evaluates to, and lines change nothing but the place
  of a complaint.

`read_back` puts the two together.
-/

namespace LoxCalc

/-! ## Writing -/

/-- The lexeme of a literal: a string stands between quotes, and what has no
text is written as its kind. -/
def literalLexeme (kind : Kind) : Option String → String
  | none => kind.text
  | some text =>
    if kind = .string then String.ofList ('\x22' :: text.toList ++ ['\x22']) else text

/-- The token that a leaf is written as. -/
def Leaf.token : Leaf → Token
  | literal kind text => ⟨kind, literalLexeme kind text, 1, text⟩
  | opening => ⟨.symbol .leftParen, "(", 1, none⟩
  | closing => ⟨.symbol .rightParen, ")", 1, none⟩
  | operator op => op

namespace Expr

/-- The tokens of a tree from left to right. -/
def yield (e : Expr) : List Token :=
  e.leaves.map Leaf.token

/-- The expression as an operand: in parentheses if it is an operator with
operands of its own. -/
def enclosed : Expr → Expr
  | literal kind text => literal kind text
  | grouping e => grouping e
  | unary op e => grouping (unary op e)
  | binary l op r => grouping (binary l op r)

/-- The expression with all operands in parentheses that are operators with
operands of their own. -/
def parenthesized : Expr → Expr
  | literal kind text => literal kind text
  | grouping e => grouping e.parenthesized
  | unary op e => unary op e.parenthesized.enclosed
  | binary l op r => binary l.parenthesized.enclosed op r.parenthesized.enclosed

/-- The text of an expression. -/
def written (e : Expr) : String :=
  joined e.parenthesized.yield

/-- The trees that can be written down: numbers are digits with perhaps a point
between them, strings have no quotes in them, and operators are spelled as
usual. -/
inductive Writable : Expr → Prop
  | number {text : String} (h : Lexical .number text.toList []) :
      Writable (.literal .number (some text))
  | string {text : String} (h : '\x22' ∉ text.toList) : Writable (.literal .string (some text))
  | keyword {k : Keyword} (hk : Kind.keyword k ∈ literalKinds) :
      Writable (.literal (.keyword k) none)
  | grouping {e : Expr} (he : Writable e) : Writable (.grouping e)
  | unary {s : Symbol} {line : Int} {e : Expr} (hs : Kind.symbol s ∈ unaryOperators)
      (he : Writable e) : Writable (.unary ⟨.symbol s, s.text, line, none⟩ e)
  | binary {s : Symbol} {line : Int} {level : Level} {l r : Expr} (hl : Writable l)
      (hs : Kind.symbol s ∈ level.operators) (hr : Writable r) :
      Writable (.binary l ⟨.symbol s, s.text, line, none⟩ r)

namespace Writable

variable {e : Expr}

theorem enclosed (h : e.Writable) : e.enclosed.Writable := by
  cases h with
  | number h => exact .number h
  | string h => exact .string h
  | keyword hk => exact .keyword hk
  | grouping he => exact .grouping he
  | unary hs he => exact .grouping (.unary hs he)
  | binary hl hs hr => exact .grouping (.binary hl hs hr)

theorem parenthesized (h : e.Writable) : e.parenthesized.Writable := by
  induction h with
  | number h => exact .number h
  | string h => exact .string h
  | keyword hk => exact .keyword hk
  | grouping he ih => exact .grouping ih
  | unary hs he ih => exact .unary hs ih.enclosed
  | binary hl hs hr ihl ihr => exact .binary ihl.enclosed hs ihr.enclosed

/-- The tree can be evaluated. -/
theorem sound (h : e.Writable) : e.Sound := by
  induction h with
  | @number text h =>
      have hsound := Sound.number h
      rwa [String.ofList_toList] at hsound
  | string h => exact .string _
  | keyword hk => exact .keyword hk
  | grouping he ih => exact .grouping ih
  | unary hs he ih => exact .unary hs ih
  | binary hl hs hr ihl ihr => exact .binary ihl hs ihr

end Writable

end Expr

/-! ## Tokens of a tree -/

/-- A symbol is a token of some text. -/
theorem Token.lexed_symbol (s : Symbol) (line : Int) :
    Token.Lexed ⟨.symbol s, s.text, line, none⟩ :=
  (WellFormed.symbol s).lexed

/-- A literal that can be written is a token of some text. -/
theorem Token.lexed_literal {kind : Kind} {text : Option String}
    (h : (Expr.literal kind text).Writable) : (Leaf.literal kind text).token.Lexed := by
  cases h with
  | number h => exact (WellFormed.number h).lexed
  | string h => exact (WellFormed.string h).lexed
  | keyword hk => exact (WellFormed.keyword _).lexed

/-- The tokens of a tree that can be written are tokens of some text. -/
theorem Expr.Writable.lexed_yield {e : Expr} (h : e.Writable) : ∀ t ∈ e.yield, t.Lexed := by
  have hopening : Leaf.opening.token.Lexed := Token.lexed_symbol .leftParen 1
  have hclosing : Leaf.closing.token.Lexed := Token.lexed_symbol .rightParen 1
  induction h with
  | number h =>
      intro t ht
      obtain rfl := List.mem_singleton.mp ht
      exact Token.lexed_literal (.number h)
  | string h =>
      intro t ht
      obtain rfl := List.mem_singleton.mp ht
      exact Token.lexed_literal (.string h)
  | keyword hk =>
      intro t ht
      obtain rfl := List.mem_singleton.mp ht
      exact Token.lexed_literal (.keyword hk)
  | grouping he ih =>
      intro t ht
      simp only [Expr.yield, Expr.leaves, List.map_append, List.map_cons, List.map_nil,
        List.cons_append, List.mem_cons, List.mem_append, List.not_mem_nil, or_false] at ht
      rcases ht with rfl | ht | rfl
      · exact hopening
      · exact ih t ht
      · exact hclosing
  | @unary s line e hs he ih =>
      intro t ht
      rcases List.mem_cons.mp ht with rfl | ht
      · exact Token.lexed_symbol s line
      · exact ih t ht
  | @binary s line level l r hl hs hr ihl ihr =>
      intro t ht
      simp only [Expr.yield, Expr.leaves, List.map_append, List.map_cons, List.mem_append,
        List.mem_cons] at ht
      rcases ht with ht | rfl | ht
      · exact ihl t ht
      · exact Token.lexed_symbol s line
      · exact ihr t ht

/-! ## Trees that were read -/

/-- A symbol of a text is spelled as usual. -/
theorem Token.Lexed.eq_symbol {t : Token} {s : Symbol} (h : t.Lexed) (ht : t.kind = .symbol s) :
    t = ⟨.symbol s, s.text, t.line, none⟩ := by
  cases h.wellFormed with
  | symbol s' =>
      obtain rfl : s' = s := Kind.symbol.inj ht
      rfl
  | _ => cases ht

/-- A literal of a text can be written down. -/
theorem Token.Lexed.writable_literal {t : Token} (h : t.Lexed) (ht : t.kind ∈ literalKinds) :
    (Expr.literal t.kind t.literal).Writable := by
  cases h.wellFormed with
  | symbol s => simp [literalKinds] at ht
  | keyword k => exact .keyword ht
  | number htext => exact .number htext
  | string htext => exact .string htext
  | identifier htext hword => simp [literalKinds] at ht

/-- What is derived from the tokens of a text can be written down. -/
theorem Derivation.writable {c : Category} (d : Derivation c) (h : ∀ t ∈ d.yield, t.Lexed) :
    d.tree.Writable := by
  induction d with
  | expression d ih => exact ih h
  | single d ih => exact ih h
  | @join level left op hop right ihl ihr =>
      simp only [yield, List.mem_append, List.mem_cons] at h
      obtain ⟨s, hs⟩ : ∃ s, op.kind = .symbol s := by
        cases level <;> simp only [Level.operators, List.mem_cons, List.not_mem_nil,
          or_false] at hop <;> grind
      have hsymbol := (h op (.inr (.inl rfl))).eq_symbol hs
      rw [hs] at hop
      rw [tree, hsymbol]
      exact .binary (ihl fun t ht => h t (.inl ht)) hop (ihr fun t ht => h t (.inr (.inr ht)))
  | plain d ih => exact ih h
  | prefixed op hop right ih =>
      obtain ⟨s, hs⟩ : ∃ s, op.kind = .symbol s := by
        simp only [unaryOperators, List.mem_cons, List.not_mem_nil, or_false] at hop
        grind
      have hsymbol := (h op List.mem_cons_self).eq_symbol hs
      rw [hs] at hop
      rw [tree, hsymbol]
      exact .unary hop (ih fun t ht => h t (List.mem_cons_of_mem _ ht))
  | literal t ht => exact (h t List.mem_cons_self).writable_literal ht
  | group opening ho inner closing hc ih =>
      simp only [yield, List.cons_append, List.mem_cons, List.mem_append] at h
      exact .grouping (ih fun t ht => h t (.inr (.inl ht)))

/-- The tree was parsed from the tokens of the text, and there was no problem in
parsing. -/
def Parsed (source : String) (e : Expr) : Prop :=
  ∃ p, Parser.ofTokens (scan source).tokens = .ok p ∧ p.parse.1 = some e

/-- **A tree that was parsed can be written down.** -/
theorem Parsed.writable {source : String} {e : Expr} (h : Parsed source e) : e.Writable := by
  obtain ⟨p, hp, htree⟩ := h
  obtain ⟨q, hq, hfresh, -, hlexed⟩ := Parser.ofTokens_scan source
  obtain rfl : p = q := Except.ok.inj (hp.symm.trans hq)
  obtain ⟨d, hyield, rfl⟩ := (Parser.parse_eq_some_iff hfresh).mp htree
  exact d.writable (by rwa [hyield])

/-! ## Reading -/

/-- The expression with its operators on no particular line. -/
def Expr.unplaced : Expr → Expr
  | literal kind text => literal kind text
  | grouping e => grouping e.unplaced
  | unary op e => unary op.unplaced e.unplaced
  | binary l op r => binary l.unplaced op.unplaced r.unplaced

/-- From the tokens of the tree, on whatever lines, the category derives the
tree, up to lines. -/
def Reads (c : Category) (e : Expr) : Prop :=
  ∀ ts : List Token, ts.map Token.unplaced = e.yield.map Token.unplaced →
    ∃ e', Derives c ts e' ∧ e'.unplaced = e.unplaced

/-- Tokens that differ in their lines only agree in everything else. -/
theorem Token.eq_of_unplaced_eq {t u : Token} (h : t.unplaced = u.unplaced) :
    t.kind = u.kind ∧ t.lexeme = u.lexeme ∧ t.literal = u.literal := by
  obtain ⟨kind, lexeme, line, literal⟩ := t
  obtain ⟨kind', lexeme', line', literal'⟩ := u
  simpa [unplaced] using h

namespace Reads

variable {c : Category} {level : Level} {e l r : Expr} {op : Token}

theorem literal {kind : Kind} (hk : kind ∈ literalKinds) (text : Option String) :
    Reads .primary (.literal kind text) := by
  intro ts hts
  obtain ⟨t, rfl, ht⟩ := List.map_eq_singleton_iff.mp hts
  obtain ⟨hkind, -, htext⟩ : t.kind = kind ∧ _ ∧ t.literal = text := Token.eq_of_unplaced_eq ht
  have hderives : Derives .primary [t] (.literal t.kind t.literal) :=
    .literal (Token.isLiteral_iff.mpr (by rwa [hkind]))
  rw [hkind, htext] at hderives
  exact ⟨_, hderives, rfl⟩

theorem group (h : Reads .expression e) : Reads .primary (.grouping e) := by
  intro ts hts
  have hyield : (Expr.grouping e).yield
      = Leaf.opening.token :: e.yield ++ [Leaf.closing.token] := by
    simp [Expr.yield, Expr.leaves]
  rw [hyield, List.map_append, List.map_cons] at hts
  obtain ⟨us, vs, rfl, hus, hvs⟩ := List.map_eq_append_iff.mp hts
  obtain ⟨opening, ws, rfl, hopening, hws⟩ := List.map_eq_cons_iff.mp hus
  obtain ⟨closing, rfl, hclosing⟩ := List.map_eq_singleton_iff.mp hvs
  obtain ⟨e', hderives, he'⟩ := h ws hws
  refine ⟨.grouping e', .group ?_ hderives ?_, congrArg Expr.grouping he'⟩
  · exact Token.isOpening_iff.mpr (Token.eq_of_unplaced_eq hopening).1
  · exact Token.isClosing_iff.mpr (Token.eq_of_unplaced_eq hclosing).1

theorem prefixed (hop : op.kind ∈ unaryOperators) (h : Reads .unary e) :
    Reads .unary (.unary op e) := by
  intro ts hts
  have hyield : (Expr.unary op e).yield = op :: e.yield := rfl
  rw [hyield] at hts
  obtain ⟨op', ws, rfl, hop', hws⟩ := List.map_eq_cons_iff.mp hts
  obtain ⟨e', hderives, he'⟩ := h ws hws
  have hunary : op'.isUnary = true :=
    Token.isUnary_iff.mpr (by rwa [(Token.eq_of_unplaced_eq hop').1])
  refine ⟨.unary op' e', hderives.prefixed hunary, ?_⟩
  rw [Expr.unplaced, Expr.unplaced, hop', he']

theorem join (hl : Reads (.chain level) l) (hop : op.kind ∈ level.operators)
    (hr : Reads level.operand r) : Reads (.chain level) (.binary l op r) := by
  intro ts hts
  have hyield : (Expr.binary l op r).yield = l.yield ++ op :: r.yield := by
    simp [Expr.yield, Expr.leaves, Leaf.token]
  rw [hyield, List.map_append] at hts
  obtain ⟨us, vs, rfl, hus, hvs⟩ := List.map_eq_append_iff.mp hts
  obtain ⟨op', ws, rfl, hop', hws⟩ := List.map_eq_cons_iff.mp hvs
  obtain ⟨l', hleft, hl'⟩ := hl us hus
  obtain ⟨r', hright, hr'⟩ := hr ws hws
  have hlevel : op'.level? = some level :=
    Token.level?_eq_some_iff.mpr (by rwa [(Token.eq_of_unplaced_eq hop').1])
  refine ⟨.binary l' op' r', hleft.join hlevel hright, ?_⟩
  rw [Expr.unplaced, Expr.unplaced, hl', hop', hr']

/-- What is read in a category is read wherever the category derives. -/
theorem mono {c' : Category} (h : Reads c e)
    (hc : ∀ ts e', Derives c ts e' → Derives c' ts e') : Reads c' e := by
  intro ts hts
  obtain ⟨e', hderives, he'⟩ := h ts hts
  exact ⟨e', hc ts e' hderives, he'⟩

/-- What is read in some category is read as an expression. -/
theorem expression (h : Reads c e) : Reads .expression e :=
  h.mono fun _ _ hderives => .expression (hderives.loosen (Nat.zero_le _))

end Reads

/-- **What is written is read.**  A tree in parentheses is read as an expression,
and as a primary where it stands as an operand. -/
theorem Expr.Writable.reads {e : Expr} (h : e.Writable) :
    Reads .expression e.parenthesized ∧ Reads .primary e.parenthesized.enclosed := by
  induction h with
  | @number text h =>
      have hread : Reads .primary (.literal .number (some text)) := .literal (by decide) _
      exact ⟨hread.expression, hread⟩
  | @string text h =>
      have hread : Reads .primary (.literal .string (some text)) := .literal (by decide) _
      exact ⟨hread.expression, hread⟩
  | @keyword k hk =>
      have hread : Reads .primary (.literal (.keyword k) none) := .literal hk none
      exact ⟨hread.expression, hread⟩
  | grouping he ih => exact ⟨ih.1.group.expression, ih.1.group⟩
  | @unary s line e hs he ih =>
      have hoperand : Reads .unary e.parenthesized.enclosed := ih.2.mono fun _ _ => Derives.plain
      have hread : Reads .unary (.unary ⟨.symbol s, s.text, line, none⟩ e.parenthesized.enclosed) :=
        .prefixed hs hoperand
      exact ⟨hread.expression, hread.expression.group⟩
  | @binary s line level l r hl hs hr ihl ihr =>
      -- a primary binds tighter than any operator, so both operands fit at this level
      have hrank : level.rank < Category.primary.rank := level.rank_lt
      have hleft : Reads (.chain level) l.parenthesized.enclosed :=
        ihl.2.mono fun _ _ hderives => hderives.loosen (Nat.le_of_lt hrank)
      have hright : Reads level.operand r.parenthesized.enclosed :=
        ihr.2.mono fun _ _ hderives => hderives.operand hrank
      have hread : Reads (.chain level) (.binary l.parenthesized.enclosed
          ⟨.symbol s, s.text, line, none⟩ r.parenthesized.enclosed) := hleft.join hs hright
      exact ⟨hread.expression, hread.expression.group⟩

/-! ## Meaning -/

/-- The diagnostic on no particular line. -/
def Diagnostic.unplaced (d : Diagnostic) : Diagnostic :=
  ⟨d.message, d.token.map Token.unplaced, d.line.map fun _ => 0⟩

/-- The fault on no particular line. -/
def Fault.unplaced : Fault → Fault
  | complaint c => .complaint { c with diagnostics := c.diagnostics.map Diagnostic.unplaced }
  | f => f

namespace Expr

/-- Parentheses around an operand change nothing. -/
theorem eval_enclosed (e : Expr) : e.enclosed.eval = e.eval := by
  cases e <;> rfl

/-- **Parentheses do not change what a tree evaluates to.** -/
theorem eval_parenthesized (e : Expr) : e.parenthesized.eval = e.eval := by
  induction e with
  | literal kind text => rfl
  | grouping e ih => exact ih
  | unary op e ih => rw [parenthesized, eval, eval, eval_enclosed, ih]
  | binary l op r ihl ihr =>
      rw [parenthesized, eval, eval, eval_enclosed, eval_enclosed, ihl, ihr]

theorem applyUnary_unplaced (op : Token) (v : Value) :
    applyUnary op.unplaced v = (applyUnary op v).mapError Fault.unplaced := by
  unfold applyUnary
  simp only [Token.unplaced]
  split <;> cases v <;> rfl

theorem map_asNumbers_unplaced (f : Float × Float → Value) (op : Token) (a b : Value) :
    (Value.asNumbers op.unplaced a b).map f
      = ((Value.asNumbers op a b).map f).mapError Fault.unplaced := by
  cases a <;> cases b <;> rfl

theorem sum_unplaced (op : Token) (a b : Value) :
    sum op.unplaced a b = (sum op a b).mapError Fault.unplaced := by
  cases a with
  | string s =>
      cases b with
      | string t => cases s <;> cases t <;> rfl
      | _ => rfl
  | _ => cases b <;> rfl

/-- The line of a binary operator shows in its complaints only. -/
theorem applyBinary_unplaced (op : Token) (a b : Value) :
    applyBinary op.unplaced a b = (applyBinary op a b).mapError Fault.unplaced := by
  have hkind : op.unplaced.kind = op.kind := rfl
  unfold applyBinary
  rw [hkind]
  split
  · exact map_asNumbers_unplaced _ op a b
  · exact map_asNumbers_unplaced _ op a b
  · exact map_asNumbers_unplaced _ op a b
  · exact sum_unplaced op a b
  · exact map_asNumbers_unplaced _ op a b
  · exact map_asNumbers_unplaced _ op a b
  · exact map_asNumbers_unplaced _ op a b
  · exact map_asNumbers_unplaced _ op a b
  · rfl
  · rfl
  · rfl

theorem evalLiteral_unplaced (kind : Kind) (text : Option String) :
    (evalLiteral kind text).mapError Fault.unplaced = evalLiteral kind text := by
  unfold evalLiteral
  split
  · cases numberOfText text <;> rfl
  · rfl
  · rfl
  · rfl
  · rfl
  · rfl

/-- **Lines do not change how a tree is evaluated**, down to any depth, but for
the place of a complaint. -/
theorem evalWithin_unplaced (n : Nat) (e : Expr) :
    e.unplaced.evalWithin n = (e.evalWithin n).mapError Fault.unplaced := by
  induction e generalizing n with
  | literal kind text =>
      cases n with
      | zero => rfl
      | succ n => exact (evalLiteral_unplaced kind text).symm
  | grouping e ih =>
      cases n with
      | zero => rfl
      | succ n => exact ih n
  | unary op e ih =>
      cases n with
      | zero => rfl
      | succ n =>
          rw [unplaced, evalWithin, evalWithin, ih]
          cases e.evalWithin n with
          | error f => rfl
          | ok v => exact applyUnary_unplaced op v
  | binary l op r ihl ihr =>
      cases n with
      | zero => rfl
      | succ n =>
          rw [unplaced, evalWithin, evalWithin, ihl, ihr]
          cases l.evalWithin n with
          | error f => rfl
          | ok a =>
              cases r.evalWithin n with
              | error f => rfl
              | ok b => exact applyBinary_unplaced op a b

/-! ## Limits -/

theorem nesting_unplaced (e : Expr) : e.unplaced.nesting = e.nesting := by
  induction e with
  | literal kind text => rfl
  | grouping e ih => rw [unplaced, nesting, nesting, ih]
  | unary op e ih => rw [unplaced, nesting, nesting, ih]
  | binary l op r ihl ihr => rw [unplaced, nesting, nesting, ihl, ihr]

theorem height_unplaced (e : Expr) : e.unplaced.height = e.height := by
  induction e with
  | literal kind text => rfl
  | grouping e ih => rw [unplaced, height, height, ih]
  | unary op e ih => rw [unplaced, height, height, ih]
  | binary l op r ihl ihr => rw [unplaced, height, height, ihl, ihr]

theorem eval_unplaced (e : Expr) : e.unplaced.eval = e.eval.mapError Fault.unplaced := by
  have hwithin := evalWithin_unplaced e.height e
  have hheight : e.unplaced.height ≤ e.height := Nat.le_of_eq e.height_unplaced
  rwa [evalWithin_of_height_le hheight, evalWithin_of_height_le (Nat.le_refl _)] at hwithin

theorem height_le_enclosed (e : Expr) : e.height ≤ e.enclosed.height := by
  cases e <;> simp [enclosed, height]

/-- Parentheses do not make a tree less high. -/
theorem height_le_parenthesized (e : Expr) : e.height ≤ e.parenthesized.height := by
  induction e with
  | literal kind text => exact Nat.le_refl _
  | grouping e ih => exact Nat.succ_le_succ ih
  | unary op e ih =>
      exact Nat.succ_le_succ (Nat.le_trans ih e.parenthesized.height_le_enclosed)
  | binary l op r ihl ihr =>
      have hl := Nat.le_trans ihl l.parenthesized.height_le_enclosed
      have hr := Nat.le_trans ihr r.parenthesized.height_le_enclosed
      simp only [parenthesized, height]
      omega

end Expr

/-! ## Reading back -/

/-- Two evaluations agree: they give the same value, or the same complaint about
operators that are spelled alike. -/
inductive Agree : Except Fault Value → Except Fault Value → Prop
  | value (v : Value) : Agree (.ok v) (.ok v)
  | complaint {op op' : Token} (hop : op'.lexeme = op.lexeme) (message : String) :
      Agree (.error (Value.typeError op message)) (.error (Value.typeError op' message))

/-- Two evaluations have the same outcome up to lines: they give the same value,
or the same complaint about operators that differ in their lines only. -/
inductive SameOutcome : Except Fault Value → Except Fault Value → Prop
  | value (v : Value) : SameOutcome (.ok v) (.ok v)
  | complaint {op op' : Token} (hop : op.unplaced = op'.unplaced) (message : String) :
      SameOutcome (.error (Value.typeError op message)) (.error (Value.typeError op' message))

namespace Settles

variable {ops ops' : List Token} {a b : Except Fault Value}

/-- Evaluations that settle and differ in lines only have the same outcome. -/
theorem sameOutcome (ha : Settles ops a) (hb : Settles ops' b)
    (h : a.mapError Fault.unplaced = b.mapError Fault.unplaced) : SameOutcome a b := by
  cases ha with
  | value hv =>
      cases hb with
      | value hw =>
          obtain rfl := Except.ok.inj h
          exact .value _
      | complaint hop message => cases h
  | complaint hop message =>
      cases hb with
      | value hw => cases h
      | complaint hop' message' =>
          simp only [Except.mapError, Fault.unplaced, Value.typeError, Diagnostic.about,
            Diagnostic.unplaced, List.map_cons, List.map_nil, Option.map_some, Except.error.injEq,
            Fault.complaint.injEq, Complaint.mk.injEq, List.cons.injEq, Diagnostic.mk.injEq,
            Option.some.injEq, and_true, true_and] at h
          obtain ⟨rfl, hunplaced⟩ := h
          exact .complaint hunplaced _

/-- Operators that differ in their lines only are spelled alike. -/
theorem agree (ha : Settles ops a) (hb : Settles ops' b)
    (h : b.mapError Fault.unplaced = a.mapError Fault.unplaced) : Agree a b := by
  cases ha.sameOutcome hb h.symm with
  | value v => exact .value v
  | complaint hop message => exact .complaint (Token.eq_of_unplaced_eq hop.symm).2.1 message

end Settles

/-- **Every tree can be written down and means the same when it is read back.**
The text of the tree is scanned and parsed without a problem.  What is read is
the tree in parentheses, up to the lines of its operators, and it evaluates to
what the tree itself evaluates to.  The program reads and evaluates it in this
way unless it goes too deep. -/
theorem read_back (t : Expr) (ht : t.Writable) :
    ∃ p e, (scan t.written).errors = [] ∧
      Parser.ofTokens (scan t.written).tokens = .ok p ∧
      p.parse.1 = some e ∧ p.parse.2.errors = [] ∧
      e.unplaced = t.parenthesized.unplaced ∧
      Agree t.eval e.eval ∧
      (t.parenthesized.isReadable = true → (scan t.written).expr = .ok e) ∧
      (t.parenthesized.height ≤ Expr.levels 3 → Agree t.eval? e.eval?) := by
  obtain ⟨herrors, htokens⟩ := scan_joined ht.parenthesized.lexed_yield
  obtain ⟨p, hp, hfresh, hsplit, hlexed⟩ := Parser.ofTokens_scan t.written
  have hahead : p.ahead.map Token.unplaced = t.parenthesized.yield.map Token.unplaced := by
    have hall : (scan t.written).tokens.map Token.unplaced
        = t.parenthesized.yield.map Token.unplaced ++ [Token.endOfSource 0] := htokens
    rw [hsplit, List.map_append] at hall
    exact (List.append_inj' hall rfl).1
  -- strings may hold line feeds, so the operators that are read need not be on one line
  obtain ⟨e, hderives, he⟩ := ht.reads.1 p.ahead hahead
  have hparse : p.parse.1 = some e := (Parser.parse_eq_some_iff hfresh).mpr hderives
  obtain ⟨hsound, hread⟩ := Parser.sound_of_parse hfresh hlexed hparse
  have hagree : Agree t.eval e.eval := by
    refine ht.sound.eval_settles.agree hsound.eval_settles ?_
    rw [← e.eval_unplaced, he, Expr.eval_unplaced, Expr.eval_parenthesized]
  have hheight : e.height = t.parenthesized.height := by
    rw [← e.height_unplaced, he, Expr.height_unplaced]
  refine ⟨p, e, herrors, hp, hparse, ?_, he, hagree, ?_, ?_⟩
  · exact (Parser.errors_parse_eq_nil_iff p).mpr ⟨e, hparse⟩
  · intro hreadable
    have hnesting : e.isReadable = true := by
      unfold Expr.isReadable at hreadable ⊢
      rwa [← e.nesting_unplaced, he, Expr.nesting_unplaced]
    have hexpr := Scan.expr_of_readable hp (by rwa [hread])
    have hnone : (scan t.written).errors = [] := herrors
    rwa [hparse, hnone] at hexpr
  · intro hlevels
    have htree : t.eval? = t.eval :=
      Expr.evalWithin_of_height_le (Nat.le_trans t.height_le_parenthesized hlevels)
    have hread : e.eval? = e.eval := Expr.evalWithin_of_height_le (by rwa [hheight])
    rwa [htree, hread]

/-- The tree of a sum of a negation and a string, in which the negation has an
operand of its own. -/
def mismatchTree : Expr :=
  .binary
    (.unary ⟨.symbol .bang, "!", 4, none⟩
      (.binary (.literal (.keyword .nilWord) none) ⟨.symbol .equalEqual, "==", 2, none⟩
        (.literal (.keyword .trueWord) none)))
    ⟨.symbol .plus, "+", 7, none⟩ (.literal .string (some "b"))

/-- The sum is read back and its operator complains as it does in the tree. -/
theorem read_back_mismatch :
    mismatchTree.Writable ∧
      mismatchTree.written = "( ! ( nil == true ) ) + \"b\"" ∧
      ∃ e op, (scan mismatchTree.written).expr = .ok e ∧
        e.unplaced = mismatchTree.parenthesized.unplaced ∧
        e.eval = .error (Value.typeError op "Mismatched types") ∧ op.lexeme = "+" := by
  have hequality : Kind.symbol .equalEqual ∈ Level.equality.operators := by decide
  have hplus : Kind.symbol .plus ∈ Level.term.operators := by decide
  have hwritable : mismatchTree.Writable :=
    .binary
      (.unary (by decide) (.binary (.keyword (by decide)) hequality (.keyword (by decide))))
      hplus (.string (by decide))
  obtain ⟨p, e, -, -, -, -, he, hagree, hexpr, -⟩ := read_back mismatchTree hwritable
  have heval : mismatchTree.eval
      = .error (Value.typeError ⟨.symbol .plus, "+", 7, none⟩ "Mismatched types") := rfl
  rw [heval] at hagree
  refine ⟨hwritable, by decide, e, ?_⟩
  generalize e.eval = result at hagree
  cases hagree with
  | complaint hop message => exact ⟨_, hexpr (by decide), he, rfl, hop⟩

end LoxCalc
