import LoxCalc.Proofs.Stripping
import LoxCalc.Proofs.Verdicts

/-!
# The shell keeps expressions as they are

The shell looks at a line before the interpreter does: it removes blanks from
both ends and takes some words and a question mark for commands.  None of this
gets in the way of an expression.  A command word would be an identifier and a
question mark a stray character, and no expression begins with either; and a
line without problems has the same tokens without the blanks around it.

* `Derivation.head_yield`: what an expression begins with;
* `Shell.parseLine_of_derives`: the shell takes a line that is an expression for
  one;
* `shell_keeps_expressions`: and it answers what the stages make of the line as
  it was given.
-/

namespace LoxCalc

open Console

/-- **An expression begins with a literal, an opening parenthesis or a unary
operator.** -/
theorem Derivation.head_yield {c : Category} (d : Derivation c) :
    ∃ t rest, d.yield = t :: rest ∧
      (t.kind ∈ literalKinds ∨ t.kind = .symbol .leftParen ∨ t.kind ∈ unaryOperators) := by
  induction d with
  | expression d ih => exact ih
  | single d ih => exact ih
  | join left op hop right ihl ihr =>
      obtain ⟨t, rest, hyield, ht⟩ := ihl
      refine ⟨t, rest ++ op :: right.yield, ?_, ht⟩
      rw [yield, hyield]
      rfl
  | plain d ih => exact ih
  | prefixed op hop right ih => exact ⟨op, _, rfl, .inr (.inr hop)⟩
  | literal t ht => exact ⟨t, _, rfl, .inl ht⟩
  | group opening ho inner closing hc ih => exact ⟨opening, _, rfl, .inr (.inl ho)⟩

/-- The first token of an expression is no identifier. -/
theorem Derives.head_ne_identifier {w : List Token} {e : Expr} (h : Derives .expression w e) :
    ∃ t rest, w = t :: rest ∧ t.kind ≠ .identifier := by
  obtain ⟨d, rfl, -⟩ := h
  obtain ⟨t, rest, hyield, ht⟩ := d.head_yield
  refine ⟨t, rest, hyield, ?_⟩
  intro hkind
  rw [hkind] at ht
  rcases ht with ht | ht | ht
  · simp [literalKinds] at ht
  · cases ht
  · simp [unaryOperators] at ht

/-- A line that begins with a word has it as its first token, and it is an
identifier unless it is a keyword. -/
theorem Scan.head_tokens_of_word {c : Char} {w cs : List Char} (hc : isWordStart c = true)
    (hword : cs.takeWhile isWordChar = c :: w)
    (hkeyword : Keyword.ofText? (String.ofList (c :: w)) = none) (line : Int) :
    ∃ t rest, (ofChars line cs).tokens = t :: rest ∧ t.kind = .identifier := by
  cases cs with
  | nil => cases hword
  | cons d cs =>
      rw [List.takeWhile_cons] at hword
      split at hword
      · obtain ⟨rfl, rfl⟩ := List.cons.inj hword
        rw [ofChars, segments_cons, Segment.first_word hc]
        refine ⟨_, _, rfl, ?_⟩
        rw [hkeyword]
        rfl
      · cases hword

/-- A question mark is a stray character. -/
theorem Segment.first_question_mark (cs : List Char) : first '?' cs = ⟨.stray, ['?']⟩ := by
  refine first_stray (by decide) (by decide) (by decide) (by decide) ?_ cs
  intro s
  cases s <;> decide

namespace Shell

/-- A line whose first token is no identifier does not begin with a command word. -/
theorem commandOf_of_head {cs : List Char} {t : Token} {rest : List Token}
    (htokens : (Scan.ofChars 1 cs).tokens = t :: rest) (ht : t.kind ≠ .identifier) :
    commandOf cs = .expression (String.ofList cs) := by
  have hne : ∀ c w, isWordStart c = true → Keyword.ofText? (String.ofList (c :: w)) = none →
      String.ofList (cs.takeWhile isWordChar) ≠ String.ofList (c :: w) := by
    intro c w hc hkeyword hword
    obtain ⟨t', rest', htokens', hkind⟩ :=
      Scan.head_tokens_of_word hc (String.ofList_injective hword) hkeyword 1
    rw [htokens] at htokens'
    obtain ⟨rfl, -⟩ := List.cons.inj htokens'
    exact ht hkind
  have hhelp := hne 'h' ['e', 'l', 'p'] rfl rfl
  have hend := hne 'E' ['O', 'F'] rfl rfl
  have hexit := hne 'e' ['x', 'i', 't'] rfl rfl
  simp only [commandOf]
  rw [if_neg hhelp, if_neg hend, if_neg hexit]

/-- **The shell takes an expression for one.**  The line it works on is the given
one without the blanks around it. -/
theorem parseLine_of_derives {source : String} {w : List Token} {stop : Token} {e : Expr}
    (herrors : (Scan.ofChars 1 (Text.strip Text.isBlank source.toList)).errors = [])
    (htokens : (Scan.ofChars 1 (Text.strip Text.isBlank source.toList)).tokens = w ++ [stop])
    (he : Derives .expression w e) :
    (parseLine source).1 = .expression (String.ofList (Text.strip Text.isBlank source.toList)) := by
  obtain ⟨t, rest, rfl, ht⟩ := he.head_ne_identifier
  rw [parseLine]
  split
  next hempty =>
    rw [hempty] at htokens
    have hlength := congrArg List.length htokens
    simp [Scan.ofChars, segments, segmentsFrom, Scan.ofSegments] at hlength
  next cs hbang => rw [hbang]
  next =>
    have hexpand : expandHelp (Text.strip Text.isBlank source.toList)
        = Text.strip Text.isBlank source.toList := by
      unfold expandHelp
      split
      next cs hmark =>
        rw [hmark, Scan.ofChars, segments_cons, Segment.first_question_mark] at herrors
        cases herrors
      next => rfl
    simp only [hexpand]
    exact commandOf_of_head htokens ht

/-- The reply to an expression follows the verdict on it. -/
theorem out_reply_of_stages {source text : String} {v : Verdict}
    (hparse : (parseLine source).1 = .expression text) (hv : Stages text v) :
    ((fresh false).reply source).out = v.text := by
  obtain ⟨s, hanswer⟩ := hv.answer
  rw [reply_eq, hparse]
  simp only [perform, evaluate, fresh, hanswer]
  exact v.shown_append_guard _

end Shell

/-- **The shell never shadows or alters a valid expression.**  Take a line without
line feeds that is scanned and parsed without problems, as it is given.  The
shell takes it for an expression and neither for a command nor for an empty line;
the blanks that it removes from both ends, also those that may not stand between
tokens, make no difference to the tokens; and it goes on afterwards.  Unless the
tree is nested too deeply it prints the tree in yellow, and then the value of the
tree or what is wrong with one of its operators. -/
theorem shell_keeps_expressions {source : String} {p : Parser} (hline : '\n' ∉ source.toList)
    (hscan : (scan source).errors = []) (hp : Parser.ofTokens (scan source).tokens = .ok p)
    (hparse : p.parse.2.errors = []) (showTokens : Bool) :
    (Shell.parseLine source).1
        = .expression (String.ofList (Text.strip Text.isBlank source.toList)) ∧
      scan (String.ofList (Text.strip Text.isBlank source.toList)) = scan source ∧
      ((Shell.fresh showTokens).reply source).stop = false ∧
      ((Shell.fresh showTokens).reply source).fault = none ∧
      ∃ e, p.parse.1 = some e ∧
        (e.isReadable = true → e.height ≤ Expr.levels 4 →
          ∃ echoed, e.echo = .ok echoed ∧
            ((∃ v printed, e.eval = .ok v ∧ v.text = .ok printed ∧
                ((Shell.fresh false).reply source).out
                  = line (yellow echoed) ++ line printed) ∨
              ∃ op message, e.eval = .error (Value.typeError op message) ∧
                ((Shell.fresh false).reply source).out = line (yellow echoed)
                  ++ line (red (Diagnostic.about op message).render))) := by
  have hstrip := scan_strip hline hscan
  obtain ⟨q, hq, herrors, htokens, hlexed⟩ := Parser.ofTokens_scan source
  obtain rfl : p = q := Except.ok.inj (hp.symm.trans hq)
  obtain ⟨e, htree⟩ := (Parser.errors_parse_eq_nil_iff p).mp hparse
  have hderives := (Parser.parse_eq_some_iff herrors).mp htree
  have hchars : Scan.ofChars 1 (Text.strip Text.isBlank source.toList) = scan source := by
    rw [← hstrip, scan, String.toList_ofList]
  have hcommand : (Shell.parseLine source).1
      = .expression (String.ofList (Text.strip Text.isBlank source.toList)) :=
    Shell.parseLine_of_derives (by rw [hchars]; exact hscan) (by rw [hchars]; exact htokens)
      hderives
  refine ⟨hcommand, hstrip, ?_, (Shell.reply_fresh showTokens source).2, e, htree, ?_⟩
  · rw [Shell.stop_reply, Shell.isLast, hcommand]
  · intro hreadable hheight
    have he : Accepted (String.ofList (Text.strip Text.isBlank source.toList)) e := by
      refine ⟨?_, ⟨p, ?_, htree⟩, hreadable⟩
      · rw [hstrip]
        exact hscan
      · rw [hstrip]
        exact hp
    obtain ⟨echoed, hecho, ⟨v, printed, heval, htext, hv⟩ | ⟨op, message, heval, hv⟩⟩ :=
      he.stages hheight
    · exact ⟨echoed, hecho, .inl ⟨v, printed, heval, htext,
        Shell.out_reply_of_stages hcommand hv⟩⟩
    · exact ⟨echoed, hecho, .inr ⟨op, message, heval, Shell.out_reply_of_stages hcommand hv⟩⟩

/-- A line with a tab before it and a comment after it that ends with a blank which
may not stand between tokens. -/
theorem shell_keeps_expressions_comment :
    (Shell.parseLine "\t!true // x\u3000").1 = .expression "!true // x" ∧
      ((Shell.fresh false).reply "\t!true // x\u3000").out
        = line (yellow "(! true)") ++ line "false" := by
  obtain ⟨p, hp, hparse, htree⟩ : ∃ p,
      Parser.ofTokens (scan "\t!true // x\u3000").tokens = .ok p ∧ p.parse.2.errors = [] ∧
        p.parse.1 = some (.unary ⟨.symbol .bang, "!", 1, none⟩
          (.literal (.keyword .trueWord) none)) :=
    ⟨_, rfl, rfl, rfl⟩
  obtain ⟨hcommand, -, -, -, e, he, hprints⟩ :=
    shell_keeps_expressions (by decide) (by decide) hp hparse false
  obtain rfl := Option.some.inj (htree.symm.trans he)
  refine ⟨hcommand, ?_⟩
  obtain ⟨echoed, hecho, ⟨v, printed, heval, htext, hout⟩ | ⟨op, message, heval, -⟩⟩ :=
    hprints (by decide) (by decide)
  · obtain rfl : "(! true)" = echoed := Except.ok.inj hecho
    obtain rfl : Value.bool false = v := Except.ok.inj heval
    obtain rfl : "false" = printed := Except.ok.inj htext
    exact hout
  · cases heval

end LoxCalc
