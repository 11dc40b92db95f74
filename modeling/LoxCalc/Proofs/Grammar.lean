import LoxCalc.Expr.Builder

/-!
# The grammar of expressions

Expressions are stratified into **categories**.  A chain of binary operators
of one level takes its operands from the next tighter level and associates to
the left; operators before an operand associate to the right; a primary is a
literal or an expression in parentheses.

    expression ::= equality
    equality   ::= comparison | equality ("!=" | "==") comparison
    comparison ::= term | comparison (">" | ">=" | "<" | "<=") term
    term       ::= factor | term ("-" | "+") factor
    factor     ::= unary | factor ("/" | "*") unary
    unary      ::= ("!" | "-") unary | primary
    primary    ::= NUMBER | STRING | "true" | "false" | "nil" | "(" expression ")"

A `Derivation` is a concrete syntax tree of this grammar.  It has a **yield**,
the tokens it derives, and a **tree**, the expression that it stands for.

* `Derivation.leaves_tree`: the leaves of the tree are the tokens derived;
* `Derivation.eq_of_tree_eq`: a derivation is determined by its yield and its
  tree, so that the grammar is unambiguous as soon as yields determine trees;
* `Derives.loosen`, `Derives.operand`: what is derived in a category is derived
  in every looser one, with the same tree.
-/

namespace LoxCalc

/-- The categories of the grammar.  The four levels of binary operators share
one shape: a chain of operands of the next tighter category. -/
inductive Category
  | expression
  | chain (level : Level)
  | unary
  | primary

/-- The category of the operands in a chain of operators of a level. -/
def Level.operand : Level → Category
  | equality => .chain .comparison
  | comparison => .chain .term
  | term => .chain .factor
  | factor => .unary

/-- The binary operators of a level. -/
def Level.operators : Level → List Kind
  | equality => [.symbol .bangEqual, .symbol .equalEqual]
  | comparison => [.symbol .greater, .symbol .greaterEqual, .symbol .less, .symbol .lessEqual]
  | term => [.symbol .minus, .symbol .plus]
  | factor => [.symbol .slash, .symbol .star]

/-- The operators that stand before their operand. -/
def unaryOperators : List Kind :=
  [.symbol .bang, .symbol .minus]

/-- The kinds of literals. -/
def literalKinds : List Kind :=
  [.number, .string, .keyword .trueWord, .keyword .falseWord, .keyword .nilWord]

/-- How tightly a category binds.  Everything from the unary operators on binds
tighter than any binary operator. -/
def Category.rank : Category → Nat
  | expression => 0
  | chain level => level.rank
  | unary | primary => 4

/-- A derivation of a sequence of tokens in a category. -/
inductive Derivation : Category → Type
  | expression (d : Derivation (.chain .equality)) : Derivation .expression
  | single {level : Level} (d : Derivation level.operand) : Derivation (.chain level)
  | join {level : Level} (left : Derivation (.chain level)) (op : Token)
      (hop : op.kind ∈ level.operators) (right : Derivation level.operand) :
      Derivation (.chain level)
  | plain (d : Derivation .primary) : Derivation .unary
  | prefixed (op : Token) (hop : op.kind ∈ unaryOperators) (right : Derivation .unary) :
      Derivation .unary
  | literal (t : Token) (ht : t.kind ∈ literalKinds) : Derivation .primary
  | group (opening : Token) (ho : opening.kind = .symbol .leftParen)
      (inner : Derivation .expression)
      (closing : Token) (hc : closing.kind = .symbol .rightParen) : Derivation .primary

namespace Derivation

/-- The tokens that a derivation derives, from left to right. -/
def yield : {c : Category} → Derivation c → List Token
  | _, expression d => d.yield
  | _, single d => d.yield
  | _, join left op _ right => left.yield ++ op :: right.yield
  | _, plain d => d.yield
  | _, prefixed op _ right => op :: right.yield
  | _, literal t _ => [t]
  | _, group opening _ inner closing _ => opening :: inner.yield ++ [closing]

/-- The expression that a derivation stands for. -/
def tree : {c : Category} → Derivation c → Expr
  | _, expression d => d.tree
  | _, single d => d.tree
  | _, join left op _ right => .binary left.tree op right.tree
  | _, plain d => d.tree
  | _, prefixed op _ right => .unary op right.tree
  | _, literal t _ => .literal t.kind t.literal
  | _, group _ _ inner _ _ => .grouping inner.tree

end Derivation

/-- The expression `e` is the tree of a derivation of `w` in the category `c`. -/
def Derives (c : Category) (w : List Token) (e : Expr) : Prop :=
  ∃ d : Derivation c, d.yield = w ∧ d.tree = e

/-- A leaf of a tree.  Operators are whole tokens; a literal has lost its lexeme
and its line, and parentheses have lost everything but their direction. -/
inductive Leaf
  | literal (kind : Kind) (text : Option String)
  | opening
  | closing
  | operator (op : Token)
  deriving DecidableEq

/-- The leaves of a tree from left to right. -/
def Expr.leaves : Expr → List Leaf
  | literal kind text => [.literal kind text]
  | grouping e => .opening :: e.leaves ++ [.closing]
  | unary op e => .operator op :: e.leaves
  | binary l op r => l.leaves ++ .operator op :: r.leaves

/-- What a tree keeps of a token. -/
def Token.leaf (t : Token) : Leaf :=
  if t.isLiteral then .literal t.kind t.literal
  else if t.isOpening then .opening
  else if t.isClosing then .closing
  else .operator t

/-! ## Kinds of token

How the builder tells tokens apart agrees with the lists of the grammar, and
the kinds exclude each other. -/

namespace Token

/-- The level of a binary operator is the one that lists it. -/
theorem level?_eq_some_iff {t : Token} {level : Level} :
    t.level? = some level ↔ t.kind ∈ level.operators := by
  unfold level?
  cases hk : t.kind with
  | symbol s => cases s <;> cases level <;> decide
  | _ => cases level <;> simp [Level.operators]

/-- The unary operators are those listed. -/
theorem isUnary_iff {t : Token} : t.isUnary = true ↔ t.kind ∈ unaryOperators := by
  simp [isUnary, unaryOperators]

/-- The literals are those listed. -/
theorem isLiteral_iff {t : Token} : t.isLiteral = true ↔ t.kind ∈ literalKinds := by
  unfold isLiteral
  cases hk : t.kind with
  | keyword k => cases k <;> decide
  | _ => simp [literalKinds]

/-- The keywords among the literals. -/
theorem keyword_mem_literalKinds {k : Keyword} :
    Kind.keyword k ∈ literalKinds ↔ k = .trueWord ∨ k = .falseWord ∨ k = .nilWord := by
  simp [literalKinds]

/-- The opening parenthesis is told by its kind. -/
theorem isOpening_iff {t : Token} : t.isOpening = true ↔ t.kind = .symbol .leftParen := by
  simp [isOpening]

/-- The closing parenthesis is told by its kind. -/
theorem isClosing_iff {t : Token} : t.isClosing = true ↔ t.kind = .symbol .rightParen := by
  simp [isClosing]

/-- Binary operators are neither literals nor parentheses. -/
theorem not_isLiteral_of_level? {t : Token} {level : Level} (h : t.level? = some level) :
    t.isLiteral = false ∧ t.isOpening = false ∧ t.isClosing = false := by
  unfold level? at h
  cases hk : t.kind with
  | symbol s =>
      rw [hk] at h
      cases s <;> simp_all [isLiteral, isOpening, isClosing, Symbol.level?]
  | _ => simp [hk] at h

/-- Unary operators are neither literals nor parentheses. -/
theorem not_isLiteral_of_isUnary {t : Token} (h : t.isUnary = true) :
    t.isLiteral = false ∧ t.isOpening = false ∧ t.isClosing = false := by
  have hk : t.kind = .symbol .bang ∨ t.kind = .symbol .minus := by simpa [isUnary] using h
  rcases hk with hk | hk <;> simp [isLiteral, isOpening, isClosing, hk]

/-- Opening parentheses are neither literals nor operators. -/
theorem not_isLiteral_of_isOpening {t : Token} (h : t.isOpening = true) :
    t.isLiteral = false ∧ t.isUnary = false ∧ t.level? = none := by
  have hk : t.kind = .symbol .leftParen := isOpening_iff.mp h
  simp [isLiteral, isUnary, level?, Symbol.level?, hk]

/-- Closing parentheses are not literals, start nothing and are no operators. -/
theorem not_isLiteral_of_isClosing {t : Token} (h : t.isClosing = true) :
    t.isLiteral = false ∧ t.isOpening = false ∧ t.isUnary = false ∧ t.level? = none := by
  have hk : t.kind = .symbol .rightParen := isClosing_iff.mp h
  simp [isLiteral, isOpening, isUnary, level?, Symbol.level?, hk]

/-- A literal is a literal leaf. -/
theorem leaf_of_isLiteral {t : Token} (h : t.isLiteral = true) :
    t.leaf = .literal t.kind t.literal := by
  simp [leaf, h]

/-- A binary operator is an operator leaf. -/
theorem leaf_of_level? {t : Token} {level : Level} (h : t.level? = some level) :
    t.leaf = .operator t := by
  simp [leaf, not_isLiteral_of_level? h]

/-- A unary operator is an operator leaf. -/
theorem leaf_of_isUnary {t : Token} (h : t.isUnary = true) : t.leaf = .operator t := by
  simp [leaf, not_isLiteral_of_isUnary h]

/-- An opening parenthesis is an opening leaf. -/
theorem leaf_of_isOpening {t : Token} (h : t.isOpening = true) : t.leaf = .opening := by
  simp [leaf, not_isLiteral_of_isOpening h, h]

/-- A closing parenthesis is a closing leaf. -/
theorem leaf_of_isClosing {t : Token} (h : t.isClosing = true) : t.leaf = .closing := by
  simp [leaf, not_isLiteral_of_isClosing h, h]

end Token

/-! ## Derivations and their trees -/

/-- Operands bind tighter than the chain they stand in. -/
theorem Level.rank_operand (level : Level) : level.operand.rank = level.rank + 1 := by
  cases level <;> rfl

/-- No level binds as tightly as a unary operator. -/
theorem Level.rank_lt (level : Level) : level.rank < 4 := by
  cases level <;> decide

namespace Derivation

/-- **The leaves of the tree are the tokens derived.** -/
theorem leaves_tree {c : Category} (d : Derivation c) :
    d.tree.leaves = d.yield.map Token.leaf := by
  induction d with
  | expression d ih => exact ih
  | single d ih => exact ih
  | join left op hop right ihl ihr =>
      simp [tree, yield, Expr.leaves, ihl, ihr,
        Token.leaf_of_level? (Token.level?_eq_some_iff.mpr hop)]
  | plain d ih => exact ih
  | prefixed op hop right ih =>
      simp [tree, yield, Expr.leaves, ih, Token.leaf_of_isUnary (Token.isUnary_iff.mpr hop)]
  | literal t ht =>
      simp [tree, yield, Expr.leaves, Token.leaf_of_isLiteral (Token.isLiteral_iff.mpr ht)]
  | group opening ho inner closing hc ih =>
      simp [tree, yield, Expr.leaves, ih, Token.leaf_of_isOpening (Token.isOpening_iff.mpr ho),
        Token.leaf_of_isClosing (Token.isClosing_iff.mpr hc)]

/-- Derivations with the same tree derive equally many tokens. -/
theorem length_yield_eq {c c' : Category} {d : Derivation c} {d' : Derivation c'}
    (h : d.tree = d'.tree) : d.yield.length = d'.yield.length := by
  have hleaves : d.yield.map Token.leaf = d'.yield.map Token.leaf := by
    rw [← leaves_tree, ← leaves_tree, h]
  simpa using congrArg List.length hleaves

/-- A category derives no binary tree whose operator binds looser than it. -/
theorem rank_le_of_tree_eq_binary {c : Category} (d : Derivation c) {l r : Expr} {op : Token}
    (h : d.tree = .binary l op r) :
    ∃ level, op.level? = some level ∧ c.rank ≤ level.rank := by
  induction d with
  | expression d ih => exact ih h
  | @single level d ih =>
      obtain ⟨level', hop, hrank⟩ := ih h
      rw [Level.rank_operand] at hrank
      exact ⟨level', hop, by simp only [Category.rank]; omega⟩
  | @join level left op' hop right =>
      obtain ⟨-, rfl, -⟩ := Expr.binary.inj h
      exact ⟨level, Token.level?_eq_some_iff.mpr hop, Nat.le_refl _⟩
  | plain d ih => exact ih h
  | prefixed op hop right => cases h
  | literal t ht => cases h
  | group opening ho inner closing hc => cases h

/-- The tree of a single operand is not that of a chain of the same level. -/
theorem tree_operand_ne_join {level : Level} (d : Derivation level.operand)
    (left : Derivation (.chain level)) (op : Token) (hop : op.kind ∈ level.operators)
    (right : Derivation level.operand) : d.tree ≠ (join left op hop right).tree := by
  intro h
  obtain ⟨level', hop', hrank⟩ := d.rank_le_of_tree_eq_binary h
  have hlevel : level = level' :=
    Option.some.inj ((Token.level?_eq_some_iff.mpr hop).symm.trans hop')
  rw [Level.rank_operand, hlevel] at hrank
  omega

/-- A primary is no unary tree. -/
theorem tree_primary_ne_unary (d : Derivation .primary) (op : Token) (e : Expr) :
    d.tree ≠ .unary op e := by
  cases d with
  | literal t ht => simp [tree]
  | group opening ho inner closing hc => simp [tree]

/-- A derivation is determined by its yield and its tree. -/
theorem eq_of_tree_eq {c : Category} {d d' : Derivation c}
    (hyield : d.yield = d'.yield) (htree : d.tree = d'.tree) : d = d' := by
  induction d with
  | expression d ih =>
      cases d' with
      | expression d' => rw [ih hyield htree]
  | single d ih =>
      cases d' with
      | single d' => rw [ih hyield htree]
      | join left op hop right =>
          exact absurd htree (tree_operand_ne_join d left op hop right)
  | join left op hop right ihl ihr =>
      cases d' with
      | single d' => exact absurd htree.symm (tree_operand_ne_join d' left op hop right)
      | join left' op' hop' right' =>
          obtain ⟨hl, rfl, hr⟩ := Expr.binary.inj htree
          -- the left operands have equally many tokens, so both yields split at the same place
          obtain ⟨hyl, hyr⟩ := List.append_inj hyield (length_yield_eq hl)
          rw [ihl hyl hl, ihr (List.cons.inj hyr).2 hr]
  | plain d ih =>
      cases d' with
      | plain d' => rw [ih hyield htree]
      | prefixed op hop right => exact absurd htree (tree_primary_ne_unary d op right.tree)
  | prefixed op hop right ih =>
      cases d' with
      | plain d' => exact absurd htree.symm (tree_primary_ne_unary d' op right.tree)
      | prefixed op' hop' right' =>
          obtain ⟨rfl, hr⟩ := Expr.unary.inj htree
          rw [ih (List.cons.inj hyield).2 hr]
  | literal t ht =>
      cases d' with
      | literal t' ht' =>
          obtain rfl : t = t' := by simpa [yield] using hyield
          rfl
      | group opening ho inner closing hc => cases htree
  | group opening ho inner closing hc ih =>
      cases d' with
      | literal t ht => cases htree
      | group opening' ho' inner' closing' hc' =>
          obtain ⟨rfl, hrest⟩ := List.cons.inj hyield
          obtain ⟨hinner, hlast⟩ := List.append_inj' hrest rfl
          obtain rfl : closing = closing' := by simpa using hlast
          rw [ih hinner (Expr.grouping.inj htree)]

end Derivation

/-! ## Derivability -/

namespace Derives

variable {c : Category} {level : Level} {u v w : List Token} {e l r : Expr} {op t : Token}

theorem expression (h : Derives (.chain .equality) w e) : Derives .expression w e := by
  obtain ⟨d, rfl, rfl⟩ := h
  exact ⟨.expression d, rfl, rfl⟩

theorem single (h : Derives level.operand w e) : Derives (.chain level) w e := by
  obtain ⟨d, rfl, rfl⟩ := h
  exact ⟨.single d, rfl, rfl⟩

theorem join (hl : Derives (.chain level) u l) (hop : op.level? = some level)
    (hr : Derives level.operand v r) :
    Derives (.chain level) (u ++ op :: v) (.binary l op r) := by
  obtain ⟨d, rfl, rfl⟩ := hl
  obtain ⟨d', rfl, rfl⟩ := hr
  exact ⟨.join d op (Token.level?_eq_some_iff.mp hop) d', rfl, rfl⟩

theorem plain (h : Derives .primary w e) : Derives .unary w e := by
  obtain ⟨d, rfl, rfl⟩ := h
  exact ⟨.plain d, rfl, rfl⟩

theorem prefixed (hop : op.isUnary = true) (h : Derives .unary w e) :
    Derives .unary (op :: w) (.unary op e) := by
  obtain ⟨d, rfl, rfl⟩ := h
  exact ⟨.prefixed op (Token.isUnary_iff.mp hop) d, rfl, rfl⟩

theorem literal (ht : t.isLiteral = true) : Derives .primary [t] (.literal t.kind t.literal) :=
  ⟨.literal t (Token.isLiteral_iff.mp ht), rfl, rfl⟩

theorem group {opening closing : Token} (ho : opening.isOpening = true)
    (h : Derives .expression w e) (hc : closing.isClosing = true) :
    Derives .primary (opening :: w ++ [closing]) (.grouping e) := by
  obtain ⟨d, rfl, rfl⟩ := h
  exact ⟨.group opening (Token.isOpening_iff.mp ho) d closing (Token.isClosing_iff.mp hc), rfl,
    rfl⟩

/-- An expression is a chain of the loosest level. -/
theorem chain_of_expression (h : Derives .expression w e) : Derives (.chain .equality) w e := by
  obtain ⟨d, rfl, rfl⟩ := h
  cases d with
  | expression d => exact ⟨d, rfl, rfl⟩

/-- What binds as tightly as a unary operator is derived as an operand of one. -/
theorem unary (h : Derives c w e) (hc : 4 ≤ c.rank) : Derives .unary w e := by
  cases c with
  | expression => simp [Category.rank] at hc
  | chain level => exact absurd hc (Nat.not_le.mpr level.rank_lt)
  | unary => exact h
  | primary => exact h.plain

/-- A chain is a chain of any looser level. -/
theorem loosen_chain {l l' : Level} (h : Derives (.chain l') w e) (hl : l.rank ≤ l'.rank) :
    Derives (.chain l) w e := by
  have toTerm : Derives (.chain .factor) w e → Derives (.chain .term) w e :=
    fun h => single h
  have toComparison : Derives (.chain .term) w e → Derives (.chain .comparison) w e :=
    fun h => single h
  have toEquality : Derives (.chain .comparison) w e → Derives (.chain .equality) w e :=
    fun h => single h
  cases l' <;> cases l <;> simp_all [Level.rank]

/-- **What is derived in a category is derived in every looser chain.** -/
theorem loosen (h : Derives c w e) (hl : level.rank ≤ c.rank) : Derives (.chain level) w e := by
  cases c with
  | expression => exact h.chain_of_expression.loosen_chain hl
  | chain l => exact h.loosen_chain hl
  | unary =>
      have hfactor : Derives (.chain .factor) w e := single h
      exact hfactor.loosen_chain (Nat.le_of_lt_succ level.rank_lt)
  | primary =>
      have hfactor : Derives (.chain .factor) w e := single h.plain
      exact hfactor.loosen_chain (Nat.le_of_lt_succ level.rank_lt)

/-- What is derived in a tighter category may stand as an operand. -/
theorem operand (h : Derives c w e) (hl : level.rank < c.rank) : Derives level.operand w e := by
  cases level with
  | factor => exact h.unary hl
  | equality => exact h.loosen hl
  | comparison => exact h.loosen hl
  | term => exact h.loosen hl

/-- The tree that is derived has the derived tokens for leaves. -/
theorem leaves_eq (h : Derives c w e) : e.leaves = w.map Token.leaf := by
  obtain ⟨d, rfl, rfl⟩ := h
  exact d.leaves_tree

end Derives

end LoxCalc
