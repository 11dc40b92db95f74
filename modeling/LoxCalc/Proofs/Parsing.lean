import LoxCalc.Proofs.Recognition

/-!
# Parsing recognises the grammar

A parser is given a list of tokens that ends with an end mark.  It reads the
tokens before the **first** end mark as one expression.

* `Parser.parse_eq_some_iff`: it gives a tree exactly if these tokens are
  derived as an expression, and the tree is the one derived;
* `Parser.errors_parse_eq_nil_iff`: there is a tree exactly if no problem is
  recorded;
* `Parser.outcome_parse?_congr`: what comes after the first end mark makes no
  difference.

`parse_recognizes` puts these together for any list of tokens.
-/

namespace LoxCalc

/-- The index of the first end mark in a list of tokens. -/
def firstEnd (ts : List Token) : Nat :=
  ts.findIdx Token.isEnd

/-- Lists that agree up to the first end mark of one of them have it in the same
place. -/
theorem firstEnd_eq_of_take_eq {ts ts' : List Token}
    (h : ts'.take (firstEnd ts + 1) = ts.take (firstEnd ts + 1)) : firstEnd ts' = firstEnd ts := by
  have hfind := congrArg (List.findIdx Token.isEnd) h
  rw [List.findIdx_take, List.findIdx_take] at hfind
  unfold firstEnd at hfind ⊢
  omega

/-- The first end mark after tokens that are none. -/
theorem firstEnd_concat {ts : List Token} {t : Token} (hts : ∀ u ∈ ts, u.isEnd = false)
    (ht : t.isEnd = true) : firstEnd (ts ++ [t]) = ts.length := by
  have hnone : ts.findIdx Token.isEnd = ts.length := List.findIdx_eq_length_of_false hts
  simp [firstEnd, List.findIdx_append, hnone, ht]

namespace Builder

/-- The tokens that a run does not take are the last ones. -/
theorem run_rest_isSuffix (floor : Nat) (b : Builder) (ts : List Token) :
    (run floor b ts).2 <:+ ts := by
  induction ts generalizing b with
  | nil => exact List.suffix_refl _
  | cons t ts ih =>
      rw [run]
      split
      · next b' hstep => exact (ih b').trans (List.suffix_cons t ts)
      · exact List.suffix_refl _

end Builder

namespace Parser

/-! ## A new parser -/

/-- A list that ends with an end mark has a parser at its beginning, which has
everything before the first end mark ahead of it. -/
theorem ofTokens_of_getLast? {ts : List Token} (hts : ts.getLast?.any Token.isEnd = true) :
    ∃ p, ofTokens ts = .ok p ∧ p.before = [] ∧ p.errors = [] ∧
      p.ahead = ts.take (firstEnd ts) ∧ ts[firstEnd ts]? = some p.stop := by
  have htake : (ts.takeWhile fun t => !t.isEnd) = ts.take (firstEnd ts) := by
    rw [List.takeWhile_eq_take_findIdx_not]
    simp [firstEnd]
  have hdrop : (ts.dropWhile fun t => !t.isEnd) = ts.drop (firstEnd ts) := by
    rw [List.dropWhile_eq_drop_findIdx_not]
    simp [firstEnd]
  unfold ofTokens
  rw [if_pos hts]
  split
  · next stop beyond h =>
    refine ⟨_, rfl, rfl, rfl, htake, ?_⟩
    rw [hdrop] at h
    rw [← List.head?_drop, h]
    rfl
  · next h =>
    -- the last token is an end mark, so dropping stops there at the latest
    cases hlast : ts.getLast? with
    | none => simp [hlast] at hts
    | some t =>
        have hend : t.isEnd = true := by simpa [hlast] using hts
        have hlt : firstEnd ts < ts.length :=
          List.findIdx_lt_length_of_exists ⟨t, List.mem_of_getLast? hlast, hend⟩
        rw [hdrop, List.drop_eq_nil_iff] at h
        omega

/-- Tokens that are no end marks are all ahead of a new parser if one end mark
follows them. -/
theorem ofTokens_concat {ts : List Token} {stop : Token} (hts : ∀ t ∈ ts, t.isEnd = false)
    (hstop : stop.isEnd = true) :
    ∃ p, ofTokens (ts ++ [stop]) = .ok p ∧ p.before = [] ∧ p.errors = [] ∧ p.ahead = ts ∧
      p.stop = stop := by
  have hend : (ts ++ [stop]).getLast?.any Token.isEnd = true := by
    rw [List.getLast?_concat]
    exact hstop
  obtain ⟨p, hp, hbefore, herrors, hahead, hget⟩ := ofTokens_of_getLast? hend
  rw [firstEnd_concat hts hstop] at hahead hget
  refine ⟨p, hp, hbefore, herrors, by rw [hahead, List.take_left], ?_⟩
  rw [List.getElem?_concat_length] at hget
  exact (Option.some.inj hget).symm

/-- Wherever a parser stands there is a token, and it is the next one. -/
theorem getElem?_position (p : Parser) : p.tokens[p.position]? = some p.peek := by
  unfold tokens position peek
  rw [List.append_assoc, List.getElem?_append_right (by simp), List.length_reverse, Nat.sub_self]
  cases p.ahead <;> rfl

/-! ## Reading to the first end mark -/

/-- The parser that has read by the grammar stands at the tokens not taken. -/
theorem ahead_readBy (p : Parser) :
    (p.readBy .expression).2.ahead = (read .expression p.ahead p.stop).rest := by
  have hsuffix : (read .expression p.ahead p.stop).rest <:+ p.ahead := by
    rw [read_expression]
    exact Builder.run_rest_isSuffix 0 {} p.ahead
  exact (List.suffix_iff_eq_drop.mp hsuffix).symm

/-- A parse either keeps what was read or records that something is left over. -/
theorem parse_eq (p : Parser) :
    p.parse =
      if (p.errors ++ (read .expression p.ahead p.stop).errors).isEmpty then
        if (read .expression p.ahead p.stop).rest.isEmpty then
          (some (read .expression p.ahead p.stop).expr, (p.readBy .expression).2)
        else
          (none, (p.readBy .expression).2.complain (p.readBy .expression).2.peek
            "Expect end of expression.")
      else (none, (p.readBy .expression).2) := by
  have hahead := ahead_readBy p
  have herrors : (p.readBy .expression).2.errors
      = p.errors ++ (read .expression p.ahead p.stop).errors := rfl
  have hexpr : (p.readBy .expression).1 = (read .expression p.ahead p.stop).expr := rfl
  unfold parse
  simp only [atEnd, hahead, herrors, hexpr]
  by_cases hnone : (p.errors ++ (read .expression p.ahead p.stop).errors).isEmpty = true
  · by_cases hrest : (read .expression p.ahead p.stop).rest.isEmpty = true
    · simp [hnone, hrest, herrors]
    · simp [hnone, hrest, complain]
  · simp [hnone, herrors]

/-- The tree and the problems that a reading amounts to if it was to be a whole
expression: a token that is left over is a problem if there is no other. -/
def judge (r : Reading) : Option Expr × List Diagnostic :=
  match r.errors, r.rest with
  | [], [] => (some r.expr, [])
  | [], t :: _ => (none, [.about t "Expect end of expression."])
  | d :: ds, _ => (none, d :: ds)

/-- A parse is a reading that is judged. -/
theorem parse_judge {p : Parser} (hp : p.errors = []) :
    (p.parse.1, p.parse.2.errors) = judge (read .expression p.ahead p.stop) := by
  have hpeek : (p.readBy .expression).2.peek
      = (read .expression p.ahead p.stop).rest.headD (p.readBy .expression).2.stop := by
    rw [peek, ahead_readBy]
  have herrors : (p.readBy .expression).2.errors
      = p.errors ++ (read .expression p.ahead p.stop).errors := rfl
  rw [parse_eq, hpeek, hp, List.nil_append]
  rw [hp, List.nil_append] at herrors
  generalize read .expression p.ahead p.stop = r at herrors ⊢
  obtain ⟨expr, errors, rest⟩ := r
  cases errors <;> cases rest <;> simp_all [judge, complain]

/-- **A tree is given exactly for an expression.**  A parser without problems
gives a tree exactly if the tokens ahead of it are derived as an expression,
and then it gives the tree derived. -/
theorem parse_eq_some_iff {p : Parser} (hp : p.errors = []) {e : Expr} :
    p.parse.1 = some e ↔ Derives .expression p.ahead e := by
  have hread : read .expression p.ahead p.stop = ⟨e, [], []⟩ ↔ Derives .expression p.ahead e :=
    read_eq_iff_derives
  rw [← hread, parse_eq, hp]
  rcases read .expression p.ahead p.stop with ⟨expr, errors, rest⟩
  cases errors <;> cases rest <;> simp

/-- There is a tree exactly if no problem is recorded. -/
theorem errors_parse_eq_nil_iff (p : Parser) :
    p.parse.2.errors = [] ↔ ∃ e, p.parse.1 = some e := by
  have herrors : (p.readBy .expression).2.errors
      = p.errors ++ (read .expression p.ahead p.stop).errors := rfl
  rw [parse_eq]
  split
  · next hnone =>
    split
    · simpa [herrors] using hnone
    · simp [complain]
  · next hsome => simpa [herrors] using hsome

/-- A parser that gives a tree stands at the end of the tokens that were ahead. -/
theorem position_parse {p : Parser} {e : Expr} (h : p.parse.1 = some e) :
    p.parse.2.position = p.position + p.ahead.length := by
  rw [parse_eq] at h ⊢
  split at h
  · next hnone =>
    split at h
    · next hrest =>
      rw [if_pos hnone, if_pos hrest]
      have hlength : (read .expression p.ahead p.stop).rest.length = 0 := by simpa using hrest
      simp [readBy, position, move, hlength, Nat.add_comm]
    · cases h
  · cases h

/-! ## Nesting -/

/-- A parse that is not too deep is the unlimited one. -/
theorem eq_parse_of_parse?_ok {p : Parser} {r : Option Expr × Parser} (h : p.parse? = .ok r) :
    r = p.parse := by
  unfold parse? at h
  split at h
  · cases h
    rfl
  · cases h

/-- Nothing but the nesting keeps a parser from finishing. -/
theorem eq_tooDeep_of_parse?_error {p : Parser} {f : Fault} (h : p.parse? = .error f) :
    f = .tooDeep := by
  unfold parse? at h
  split at h
  · cases h
  · cases h
    rfl

/-- An expression that is not nested too deeply is parsed. -/
theorem parse?_of_derives {p : Parser} (hp : p.errors = []) {e : Expr}
    (he : Derives .expression p.ahead e) (hreadable : e.isReadable = true) :
    p.parse? = .ok (some e, p.parse.2) := by
  have hexpr : (p.readBy .expression).1 = e :=
    congrArg Reading.expr (read_of_derives he p.stop)
  have hparse : p.parse = (some e, p.parse.2) := Prod.ext ((parse_eq_some_iff hp).mpr he) rfl
  rw [parse?, hexpr, if_pos hreadable, hparse]

/-! ## What comes after the first end mark -/

/-- What can be told of a parse from outside: the tree, the problems and the
position. -/
def outcome (r : Option Expr × Parser) : Option Expr × List Diagnostic × Nat :=
  (r.1, r.2.errors, r.2.position)

/-- Parsers that differ only after the first end mark parse alike. -/
theorem outcome_parse_congr {p q : Parser} (hbefore : p.before = q.before)
    (hahead : p.ahead = q.ahead) (hstop : p.stop = q.stop) (herrors : p.errors = q.errors) :
    outcome p.parse = outcome q.parse := by
  have hpeek : (p.readBy .expression).2.peek = (q.readBy .expression).2.peek := by
    simp [readBy, peek, move, hahead, hstop]
  rw [parse_eq, parse_eq, hpeek, hahead, hstop, herrors]
  split
  · split
    · simp [outcome, readBy, position, move, hbefore, hahead, hstop, herrors]
    · simp [outcome, readBy, position, complain, move, hbefore, hahead, hstop, herrors]
  · simp [outcome, readBy, position, move, hbefore, hahead, hstop, herrors]

/-- **Tokens after the first end mark make no difference**, not even to whether
the nesting is too deep. -/
theorem outcome_parse?_congr {p q : Parser} (hbefore : p.before = q.before)
    (hahead : p.ahead = q.ahead) (hstop : p.stop = q.stop) (herrors : p.errors = q.errors) :
    p.parse?.map outcome = q.parse?.map outcome := by
  have hexpr : (p.readBy .expression).1 = (q.readBy .expression).1 := by
    simp [readBy, hahead, hstop]
  rw [parse?, parse?, hexpr]
  split
  · exact congrArg Except.ok (outcome_parse_congr hbefore hahead hstop herrors)
  · rfl

end Parser

/-- **Parsing recognises the grammar.**  Take any list of tokens that ends with
an end mark, and the tokens before its first end mark.  A parse that is not
nested too deeply gives a tree without problems exactly if these tokens are
derived as an expression; the tree is the one derived, the parser then stands
at the first end mark, and the leaves of the tree are these tokens.  Otherwise
there is no tree and at least one problem.  There is only one derivation, and
the tokens after the first end mark do not matter. -/
theorem parse_recognizes (ts : List Token) (hts : ts.getLast?.any Token.isEnd = true) :
    ∃ p, Parser.ofTokens ts = .ok p ∧
      (∀ result q, p.parse? = .ok (result, q) →
        (∀ e, result = some e ∧ q.errors = [] ↔ Derives .expression (ts.take (firstEnd ts)) e) ∧
        (∀ e, result = some e → q.errors = [] ∧ q.position = firstEnd ts ∧
          e.leaves = (ts.take (firstEnd ts)).map Token.leaf) ∧
        ((¬ ∃ e, Derives .expression (ts.take (firstEnd ts)) e) →
          result = none ∧ q.errors ≠ [])) ∧
      (∀ fault, p.parse? = .error fault → fault = .tooDeep) ∧
      (∀ e, Derives .expression (ts.take (firstEnd ts)) e → e.isReadable = true →
        ∃ q, p.parse? = .ok (some e, q)) ∧
      (∀ d d' : Derivation .expression, d.yield = ts.take (firstEnd ts) →
        d'.yield = ts.take (firstEnd ts) → d = d') ∧
      (∀ ts', ts'.getLast?.any Token.isEnd = true →
        ts'.take (firstEnd ts + 1) = ts.take (firstEnd ts + 1) →
        ∃ p', Parser.ofTokens ts' = .ok p' ∧
          p'.parse?.map Parser.outcome = p.parse?.map Parser.outcome) := by
  obtain ⟨p, hp, hbefore, herrors, hahead, hstop⟩ := Parser.ofTokens_of_getLast? hts
  have htree : ∀ e, p.parse.1 = some e ↔ Derives .expression (ts.take (firstEnd ts)) e := by
    intro e
    rw [Parser.parse_eq_some_iff herrors, hahead]
  refine ⟨p, hp, ?_, fun _ => Parser.eq_tooDeep_of_parse?_error, ?_, ?_, ?_⟩
  · intro result q hparse
    obtain ⟨rfl, rfl⟩ := Prod.ext_iff.mp (Parser.eq_parse_of_parse?_ok hparse)
    refine ⟨?_, ?_, ?_⟩
    · intro e
      rw [← htree e]
      constructor
      · exact And.left
      · intro he
        exact ⟨he, (Parser.errors_parse_eq_nil_iff p).mpr ⟨e, he⟩⟩
    · intro e he
      refine ⟨(Parser.errors_parse_eq_nil_iff p).mpr ⟨e, he⟩, ?_, ((htree e).mp he).leaves_eq⟩
      obtain ⟨hlt, -⟩ := List.getElem?_eq_some_iff.mp hstop
      rw [Parser.position_parse he, Parser.position, hbefore, hahead, List.length_take]
      simp only [List.length_nil, Nat.zero_add]
      omega
    · intro hnone
      have hresult : p.parse.1 = none := by
        cases h : p.parse.1 with
        | none => rfl
        | some e => exact absurd ⟨e, (htree e).mp h⟩ hnone
      refine ⟨hresult, ?_⟩
      intro hnil
      obtain ⟨e, he⟩ := (Parser.errors_parse_eq_nil_iff p).mp hnil
      rw [hresult] at he
      cases he
  · intro e he hreadable
    rw [← hahead] at he
    exact ⟨_, Parser.parse?_of_derives herrors he hreadable⟩
  · intro d d' hd hd'
    exact Derivation.eq_of_yield_eq (hd.trans hd'.symm)
  · intro ts' hts' hagree
    obtain ⟨p', hp', hbefore', herrors', hahead', hstop'⟩ := Parser.ofTokens_of_getLast? hts'
    have hfirst : firstEnd ts' = firstEnd ts := firstEnd_eq_of_take_eq hagree
    rw [hfirst] at hahead' hstop'
    have hsame : p'.ahead = p.ahead := by
      rw [hahead, hahead']
      simpa [List.take_take] using congrArg (List.take (firstEnd ts)) hagree
    have hstops : p'.stop = p.stop := by
      have hget := congrArg (fun l => l[firstEnd ts]?) hagree
      simpa [List.getElem?_take, hstop, hstop'] using hget
    refine ⟨p', hp', ?_⟩
    exact Parser.outcome_parse?_congr (hbefore'.trans hbefore.symm) hsame hstops
      (herrors'.trans herrors.symm)

/-- The tokens of `-1 * (2)`, an end mark, and more tokens after it. -/
def productTokens : List Token :=
  [⟨.symbol .minus, "-", 1, none⟩, ⟨.number, "1", 1, some "1"⟩, ⟨.symbol .star, "*", 1, none⟩,
    ⟨.symbol .leftParen, "(", 1, none⟩, ⟨.number, "2", 1, some "2"⟩,
    ⟨.symbol .rightParen, ")", 1, none⟩, .endOfSource 1, ⟨.symbol .star, "*", 2, none⟩,
    .endOfSource 2]

/-- The tree of the product. -/
def productTree : Expr :=
  .binary (.unary ⟨.symbol .minus, "-", 1, none⟩ (.literal .number (some "1")))
    ⟨.symbol .star, "*", 1, none⟩ (.grouping (.literal .number (some "2")))

/-- The product is parsed up to its first end mark. -/
theorem parse_recognizes_product :
    productTokens.getLast?.any Token.isEnd = true ∧
      ∃ p q, Parser.ofTokens productTokens = .ok p ∧ p.parse? = .ok (some productTree, q) ∧
        q.errors = [] ∧ q.position = 6 := by
  have hend : productTokens.getLast?.any Token.isEnd = true := by decide
  obtain ⟨p, hp, hdone, -, hcomplete, -⟩ := parse_recognizes productTokens hend
  have hone : Derives .primary [⟨.number, "1", 1, some "1"⟩] (.literal .number (some "1")) :=
    .literal rfl
  have htwo : Derives .primary [⟨.number, "2", 1, some "2"⟩] (.literal .number (some "2")) :=
    .literal rfl
  have hinner : Derives .expression [⟨.number, "2", 1, some "2"⟩] (.literal .number (some "2")) :=
    .expression (htwo.loosen (Nat.zero_le _))
  have hleft : Derives (.chain .factor) (productTokens.take 2)
      (.unary ⟨.symbol .minus, "-", 1, none⟩ (.literal .number (some "1"))) :=
    (hone.plain.prefixed rfl).loosen (by decide)
  have hproduct : Derives (.chain .factor) (productTokens.take 6) productTree :=
    hleft.join rfl (Derives.plain (.group rfl hinner rfl))
  have hderives :
      Derives .expression (productTokens.take (firstEnd productTokens)) productTree :=
    .expression (hproduct.loosen (Nat.zero_le _))
  obtain ⟨q, hq⟩ := hcomplete productTree hderives (by decide)
  obtain ⟨-, htree, -⟩ := hdone _ q hq
  obtain ⟨herrors, hposition, -⟩ := htree productTree rfl
  exact ⟨hend, p, q, hp, hq, herrors, hposition⟩

end LoxCalc
