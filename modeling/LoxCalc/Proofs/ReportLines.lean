import LoxCalc.Proofs.Adding
import LoxCalc.Proofs.Recovery

/-!
# Lines of a report

The problems of a text that is refused are printed one after the other, with a line
feed after each.  This is one problem to a line as long as no rendering has a line
feed of its own.  A rendering quotes the token that the problem is about, so it all
depends on which tokens can be quoted.

* `Diagnostic.Raised` lists the problems that scanning and parsing can raise, and
  `Builder.raised_step` to `Scan.raised_expr` show that there are no others;
* `Token.Lexed.lineFeeds_lexeme`: a token with a line feed in it is a string;
* `Diagnostic.Raised.lineFeeds_render`: hence a rendering has the line feeds of the
  string that it quotes, and no others.

A string over several lines can indeed be quoted, where a closing parenthesis or the
end of the expression is due.  There the report has more lines than problems.
-/

namespace LoxCalc

open Console

/-! ## Counting line feeds -/

/-- The number of line feeds in a text. -/
def lineFeeds (s : String) : Nat :=
  s.toList.count '\n'

@[simp] theorem lineFeeds_append (s t : String) :
    lineFeeds (s ++ t) = lineFeeds s + lineFeeds t := by
  simp [lineFeeds]

theorem lineFeeds_eq_zero_iff {s : String} : lineFeeds s = 0 ↔ '\n' ∉ s.toList :=
  List.count_eq_zero

/-- There are no line feeds in the number of a line. -/
theorem lineFeeds_toString (n : Int) : lineFeeds (toString n) = 0 := by
  have hnat : ∀ k : Nat, lineFeeds (toString k) = 0 := by
    intro k
    rw [lineFeeds_eq_zero_iff, Nat.toString_eq_ofList_toDigits, String.toList_ofList]
    exact fun hmem => nomatch Nat.isDigit_of_mem_toDigits (by decide) (by decide) hmem
  cases n with
  | ofNat k => exact hnat k
  | negSucc k =>
      show lineFeeds ("-" ++ toString (k + 1)) = 0
      rw [lineFeeds_append, hnat]
      decide

@[simp] theorem lineFeeds_red (s : String) : lineFeeds (red s) = lineFeeds s := by
  have hstart : lineFeeds "\x1b[31m" = 0 := by decide
  have hend : lineFeeds "\x1b[0m" = 0 := by decide
  rw [red, styled, lineFeeds_append, lineFeeds_append, hstart, hend, Nat.zero_add, Nat.add_zero]

@[simp] theorem lineFeeds_line (s : String) : lineFeeds (line s) = lineFeeds s + 1 := by
  rw [line, lineFeeds_append]
  rfl

/-- A report has a line feed for every problem, and those within the renderings. -/
theorem lineFeeds_report (ds : List Diagnostic) :
    lineFeeds (Reporter.report ds)
      = ds.length + (ds.map fun d => lineFeeds d.render).sum := by
  induction ds with
  | nil => rfl
  | cons d ds ih =>
      have hcons : Reporter.report (d :: ds) = line (red d.render) ++ Reporter.report ds := by
        simp [Reporter.report]
      rw [hcons, lineFeeds_append, lineFeeds_line, lineFeeds_red, ih, List.length_cons,
        List.map_cons, List.sum_cons]
      omega

/-! ## The problems of a text -/

/-- The problems that scanning and parsing can raise about these tokens. -/
inductive Diagnostic.Raised (ts : List Token) : Diagnostic → Prop
  | unterminated (line : Int) : Raised ts (.onLine line "Unterminated string.")
  | stray (line : Int) : Raised ts (.onLine line "Unexpected character.")
  | operand {t : Token} (ht : t ∈ ts) (hliteral : t.isLiteral = false) :
      Raised ts (.about t "Expect expression.")
  | closing {t : Token} (ht : t ∈ ts) : Raised ts (.about t "Expect ')' after expression.")
  | ending {t : Token} (ht : t ∈ ts) : Raised ts (.about t "Expect end of expression.")

open Diagnostic

namespace Builder

variable {ts : List Token}

/-- No operand starts with this token, so it is no literal. -/
theorem isLiteral_of_start? {b : Builder} {t : Token} (h : b.start? t = none) :
    t.isLiteral = false := by
  rw [Bool.eq_false_iff]
  intro hliteral
  simp [start?, hliteral] at h

/-- A token that is refused where an operand is due is no literal. -/
theorem isLiteral_of_step {floor : Nat} {b : Builder} {t : Token} (hb : b.operand = none)
    (h : b.step floor t = none) : t.isLiteral = false := by
  rw [step, hb] at h
  cases hstart : b.start? t with
  | none => exact isLiteral_of_start? hstart
  | some b' => simp [hstart] at h

theorem raised_step {floor : Nat} {b b' : Builder} {t : Token}
    (hb : ∀ d ∈ b.errors, Raised ts d) (ht : t ∈ ts) (h : b.step floor t = some b') :
    ∀ d ∈ b'.errors, Raised ts d := by
  rcases errors_step h with herrors | ⟨-, hstart, herrors⟩
  · rwa [herrors]
  · rw [herrors]
    intro d hd
    rcases List.mem_append.mp hd with hd | hd
    · exact hb d hd
    · rw [List.mem_singleton.mp hd]
      exact .operand ht (isLiteral_of_start? hstart)

/-- A run raises nothing else; and if it ends where an operand is due, then not at a literal. -/
theorem raised_run (floor : Nat) {b : Builder} (hb : ∀ d ∈ b.errors, Raised ts d)
    {ahead : List Token} (hahead : ∀ t ∈ ahead, t ∈ ts) :
    (∀ d ∈ (run floor b ahead).1.errors, Raised ts d) ∧
      ((run floor b ahead).1.operand = none →
        ∀ t ∈ (run floor b ahead).2.head?, t.isLiteral = false) := by
  induction ahead generalizing b with
  | nil => exact ⟨hb, fun _ t ht => nomatch ht⟩
  | cons t ahead ih =>
      cases hstep : b.step floor t with
      | some b' =>
          rw [run_cons hstep]
          exact ih (raised_step hb (hahead t List.mem_cons_self) hstep)
            (fun u hu => hahead u (List.mem_cons_of_mem t hu))
      | none =>
          simp only [run, hstep]
          refine ⟨hb, fun hnone u hu => ?_⟩
          obtain rfl : t = u := Option.some.inj hu
          exact isLiteral_of_step hnone hstep

theorem raised_finish {b : Builder} {next : Token} (hb : ∀ d ∈ b.errors, Raised ts d)
    (hnext : next ∈ ts) (hliteral : b.operand = none → next.isLiteral = false) :
    ∀ d ∈ (b.finish next).2, Raised ts d := by
  have hclose : ∀ (e : Expr) (errors : List Diagnostic), (∀ d ∈ errors, Raised ts d) →
      ∀ d ∈ (close next e errors b.stack).2, Raised ts d := by
    intro e errors herrors d hd
    rw [errors_close] at hd
    rcases List.mem_append.mp hd with hd | hd
    · exact herrors d hd
    · rw [List.eq_of_mem_replicate hd]
      exact .closing hnext
  unfold finish
  cases hoperand : b.operand with
  | some e => exact hclose e b.errors hb
  | none =>
      refine hclose .missing _ ?_
      intro d hd
      rcases List.mem_append.mp hd with hd | hd
      · exact hb d hd
      · rw [List.mem_singleton.mp hd]
        exact .operand hnext (hliteral hoperand)

end Builder

/-- What a reading raises is about the tokens ahead or the end mark after them. -/
theorem raised_read {ahead : List Token} {stop : Token} (hstop : stop.isEnd = true) :
    ∀ d ∈ (read .expression ahead stop).errors, Raised (ahead ++ [stop]) d := by
  have hnone : ∀ d ∈ ({} : Builder).errors, Raised (ahead ++ [stop]) d := fun d hd => nomatch hd
  have hahead : ∀ t ∈ ahead, t ∈ ahead ++ [stop] := fun t ht => List.mem_append_left _ ht
  obtain ⟨herrors, hliteral⟩ := Builder.raised_run 0 hnone hahead
  have hsuffix := Builder.run_rest_isSuffix 0 {} ahead
  rw [read_expression]
  refine Builder.raised_finish herrors ?_ (fun hoperand => ?_)
  · -- the token that ends the expression is one of those ahead, or the end mark
    cases hrest : (Builder.run 0 {} ahead).2 with
    | nil => exact List.mem_append_right _ (List.mem_singleton.mpr rfl)
    | cons t rest => exact hahead t (hsuffix.subset (hrest ▸ List.mem_cons_self))
  · have hrefused := hliteral hoperand
    cases hrest : (Builder.run 0 {} ahead).2 with
    | nil =>
        have hkind : stop.kind = .eof := beq_iff_eq.mp hstop
        simp [Token.isLiteral, hkind]
    | cons t rest => exact hrefused t (by rw [hrest]; rfl)

/-- So is what a parse raises. -/
theorem Parser.raised_parse {p : Parser} (herrors : p.errors = []) :
    ∀ d ∈ p.parse.2.errors, Raised (p.ahead ++ [p.stop]) d := by
  have hread : ∀ d ∈ (p.readBy .expression).2.errors, Raised (p.ahead ++ [p.stop]) d := by
    have hadded : (p.readBy .expression).2.errors = (read .expression p.ahead p.stop).errors := by
      simp [readBy, herrors]
    rw [hadded]
    exact raised_read p.stop_isEnd
  rw [p.errors_parse]
  intro d hd
  rcases List.mem_append.mp hd with hd | hd
  · exact hread d hd
  · split at hd
    · rw [List.mem_singleton.mp hd]
      refine .ending ?_
      rw [peek]
      cases hahead : (p.readBy .expression).2.ahead with
      | nil => exact List.mem_append_right _ (List.mem_singleton.mpr rfl)
      | cons t rest =>
          have hmem : t ∈ (p.readBy .expression).2.ahead := hahead ▸ List.mem_cons_self
          exact List.mem_append_left _ (List.mem_of_mem_drop hmem)
    · cases hd

/-- Scanning raises problems of two sorts. -/
theorem Scan.raised_ofSegments (ts : List Token) (pieces : List Segment) (line : Int) :
    ∀ d ∈ (ofSegments line pieces).errors, Raised ts d := by
  induction pieces generalizing line with
  | nil => exact fun d hd => nomatch hd
  | cons s pieces ih =>
      intro d hd
      rcases List.mem_append.mp hd with hd | hd
      · rcases s.diagnostic?_spec (s.lineAfter line) with ⟨-, d', hsome, hreports⟩ | ⟨-, hnone⟩
        · rw [hsome, Option.toList_some, List.mem_singleton] at hd
          subst hd
          cases hreports with
          | stray => exact .stray _
          | openString => exact .unterminated _
        · rw [hnone] at hd
          cases hd
      · exact ih _ d hd

/-- The problems of a text that is refused. -/
theorem Scan.raised_expr {source : String} {c : Complaint}
    (h : (scan source).expr = .error (.complaint c)) :
    c.isInternal = false ∧ ∀ d ∈ c.diagnostics, Raised (scan source).tokens d := by
  obtain ⟨p, hp, herrors, htokens, -⟩ := Parser.ofTokens_scan source
  have hreadable : (p.readBy .expression).1.isReadable = true := by
    by_contra hnot
    rw [Scan.expr_of_not_readable hp (Bool.eq_false_iff.mpr hnot)] at h
    cases h
  rw [Scan.expr_of_readable hp hreadable] at h
  split at h
  · cases h
  · cases h
    refine ⟨rfl, fun d hd => ?_⟩
    rcases List.mem_append.mp hd with hd | hd
    · exact Scan.raised_ofSegments _ _ 1 d hd
    · rw [htokens]
      exact Parser.raised_parse herrors d hd

/-! ## Tokens and renderings -/

/-- A token of a text with a line feed in it is a string. -/
theorem Token.Lexed.lineFeeds_lexeme {t : Token} (h : t.Lexed) (ht : t.kind ≠ .string) :
    lineFeeds t.lexeme = 0 := by
  obtain ⟨s, rest, hlexical, hgives⟩ := h
  rw [lineFeeds_eq_zero_iff]
  cases hgives with
  | string => exact absurd rfl ht
  | keyword k => exact hlexical.newline_notMem (by simp)
  | number =>
      rw [String.toList_ofList]
      exact hlexical.newline_notMem (by simp)
  | identifier =>
      rw [String.toList_ofList]
      exact hlexical.newline_notMem (by simp)
  | symbol =>
      rw [String.toList_ofList]
      exact hlexical.newline_notMem (by simp)

/-- The number of line feeds in the string that a problem is about. -/
def Diagnostic.breaks (d : Diagnostic) : Nat :=
  match d.token with
  | some t => if t.kind = .string then lineFeeds t.lexeme else 0
  | none => 0

theorem Diagnostic.breaks_eq_zero_iff {d : Diagnostic} :
    d.breaks = 0 ↔ ∀ t, d.token = some t → t.kind = .string → '\n' ∉ t.lexeme.toList := by
  unfold breaks
  cases d.token with
  | none => simp
  | some t => by_cases hstring : t.kind = .string <;> simp [hstring, lineFeeds_eq_zero_iff]

/-- The line of a problem adds no line feed. -/
theorem lineFeeds_render_of_line {d : Diagnostic} {n : Int} (h : d.line = some n) :
    lineFeeds d.render = lineFeeds d.placed := by
  have hcolon : lineFeeds ": " = 0 := by decide
  rw [Diagnostic.render, h]
  simp only [lineFeeds_append, lineFeeds_toString, hcolon, Nat.zero_add]

/-- The rendering of a problem with a token of a text. -/
theorem lineFeeds_render_about {source : String} {t : Token} (ht : t ∈ (scan source).tokens)
    {message : String} (hmessage : lineFeeds message = 0) :
    lineFeeds (Diagnostic.about t message).render = (Diagnostic.about t message).breaks := by
  have hrender : lineFeeds (Diagnostic.about t message).render
      = lineFeeds (Diagnostic.about t message).placed := lineFeeds_render_of_line rfl
  obtain ⟨ts, n, htokens, hlexed⟩ := tokens_scan source
  rw [htokens, List.mem_append, List.mem_singleton] at ht
  rw [hrender]
  rcases ht with ht | rfl
  · have hopening : lineFeeds "at '" = 0 := by decide
    have hclosing : lineFeeds "' - " = 0 := by decide
    have hplaced : lineFeeds (Diagnostic.about t message).placed = lineFeeds t.lexeme := by
      simp [Diagnostic.placed, Diagnostic.about, (hlexed t ht).isEnd_eq, hopening, hclosing,
        hmessage]
    rw [hplaced]
    by_cases hstring : t.kind = .string
    · simp [Diagnostic.breaks, Diagnostic.about, hstring]
    · simp [Diagnostic.breaks, Diagnostic.about, hstring, (hlexed t ht).lineFeeds_lexeme hstring]
  · have hend : lineFeeds "at end - " = 0 := by decide
    simp [Diagnostic.placed, Diagnostic.about, Diagnostic.breaks, Token.endOfSource, Token.isEnd,
      hend, hmessage]

/-- A rendering has the line feeds of the string that the problem is about. -/
theorem Diagnostic.Raised.lineFeeds_render {source : String} {d : Diagnostic}
    (h : Raised (scan source).tokens d) : lineFeeds d.render = d.breaks := by
  cases h with
  | unterminated n =>
      have hmessage : lineFeeds "Unterminated string." = 0 := by decide
      rw [lineFeeds_render_of_line rfl]
      exact hmessage
  | stray n =>
      have hmessage : lineFeeds "Unexpected character." = 0 := by decide
      rw [lineFeeds_render_of_line rfl]
      exact hmessage
  | operand ht hliteral => exact lineFeeds_render_about ht (by decide)
  | closing ht => exact lineFeeds_render_about ht (by decide)
  | ending ht => exact lineFeeds_render_about ht (by decide)

/-- A problem whose rendering is broken is about a string over several lines, which stands where a
closing parenthesis or the end of the expression is due. -/
theorem Diagnostic.Raised.eq_about_of_breaks {ts : List Token} {d : Diagnostic}
    (h : Raised ts d) (hbreaks : d.breaks ≠ 0) :
    ∃ t ∈ ts, t.kind = .string ∧ '\n' ∈ t.lexeme.toList ∧
      (d = .about t "Expect ')' after expression." ∨ d = .about t "Expect end of expression.") := by
  rw [Ne, Diagnostic.breaks_eq_zero_iff] at hbreaks
  push Not at hbreaks
  obtain ⟨t, htoken, hstring, hmem⟩ := hbreaks
  cases h with
  | unterminated n => cases htoken
  | stray n => cases htoken
  | operand ht hliteral =>
      -- a string is an operand, so none is missing before it
      obtain rfl := Option.some.inj htoken
      simp [Token.isLiteral, hstring] at hliteral
  | closing ht =>
      obtain rfl := Option.some.inj htoken
      exact ⟨_, ht, hstring, hmem, .inl rfl⟩
  | ending ht =>
      obtain rfl := Option.some.inj htoken
      exact ⟨_, ht, hstring, hmem, .inr rfl⟩

namespace Session

/-- A text is refused with the problems of scanning and parsing. -/
theorem raised_of_add {s : Session} {source : String} {c : Complaint}
    (h : (s.add source).fault = some (.complaint c)) :
    c.isInternal = false ∧ ∀ d ∈ c.diagnostics, Raised (scan source).tokens d := by
  apply Scan.raised_expr
  rcases s.add_cases source with ⟨f, hf, hadd⟩ | ⟨e, out, -, -, hadd⟩ | ⟨e, text, -, -, -, hadd⟩
  · rw [hadd] at h
    rw [hf]
    exact congrArg Except.error (Option.some.inj h)
  · rw [hadd] at h
    cases h
  · rw [hadd] at h
    cases h

/-- **A report is broken only by strings over several lines.**  Whatever text is refused, its
report has as many line feeds as problems, and those of the strings that the problems are about.
Hence there is one problem to a line exactly if no problem is about a string over several lines; and
such a string stands where a closing parenthesis or the end of the expression is due. -/
theorem report_broken_only_by_strings {s : Session} {source : String} {c : Complaint}
    (h : (s.add source).fault = some (.complaint c)) (r : Reporter) :
    lineFeeds (r.guard (some (.complaint c))).out
      = c.diagnostics.length + (c.diagnostics.map Diagnostic.breaks).sum ∧
    (lineFeeds (r.guard (some (.complaint c))).out = c.diagnostics.length ↔
      ∀ d ∈ c.diagnostics, ∀ t, d.token = some t → t.kind = .string → '\n' ∉ t.lexeme.toList) ∧
    ∀ d ∈ c.diagnostics, '\n' ∈ d.render.toList →
      ∃ t ∈ (scan source).tokens, t.kind = .string ∧ '\n' ∈ t.lexeme.toList ∧
        (d = .about t "Expect ')' after expression." ∨
          d = .about t "Expect end of expression.") := by
  obtain ⟨hinternal, hraised⟩ := raised_of_add h
  have hout : (r.guard (some (.complaint c))).out = Reporter.report c.diagnostics := by
    simp [Reporter.guard, Reporter.throw, Reporter.complaintText, hinternal]
  have hfeeds : ∀ d ∈ c.diagnostics, lineFeeds d.render = d.breaks :=
    fun d hd => (hraised d hd).lineFeeds_render
  have hcount : lineFeeds (r.guard (some (.complaint c))).out
      = c.diagnostics.length + (c.diagnostics.map Diagnostic.breaks).sum := by
    rw [hout, lineFeeds_report, List.map_congr_left hfeeds]
  refine ⟨hcount, ?_, ?_⟩
  · have hsum : (c.diagnostics.map Diagnostic.breaks).sum = 0 ↔
        ∀ d ∈ c.diagnostics, d.breaks = 0 := by
      rw [List.sum_eq_zero_iff_forall_eq_nat, List.forall_mem_map]
    rw [hcount, Nat.add_eq_left, hsum]
    exact forall₂_congr fun d _ => Diagnostic.breaks_eq_zero_iff
  · intro d hd hmem
    refine (hraised d hd).eq_about_of_breaks ?_
    rw [← hfeeds d hd]
    exact fun hzero => lineFeeds_eq_zero_iff.mp hzero hmem

/-- A session under the shell that lists nothing. -/
def quiet : Session where
  interactive := true
  showTokens := false

/-- A string over two lines. -/
def twoLines : Token :=
  ⟨.string, "\"a\nb\"", 2, some "a\nb"⟩

/-- Two parentheses are not closed before the string, and it is quoted for both of them. -/
theorem report_broken_only_by_strings_unclosed :
    (quiet.add "((1 \"a\nb\"").fault = some (.complaint ⟨.parsing,
      [.about twoLines "Expect ')' after expression.",
        .about twoLines "Expect ')' after expression."], false⟩) ∧
    lineFeeds (({ fatal := false } : Reporter).guard (some (.complaint ⟨.parsing,
      [.about twoLines "Expect ')' after expression.",
        .about twoLines "Expect ')' after expression."], false⟩))).out = 4 := by
  have hrefused : (quiet.add "((1 \"a\nb\"").fault = some (.complaint ⟨.parsing,
      [.about twoLines "Expect ')' after expression.",
        .about twoLines "Expect ')' after expression."], false⟩) := rfl
  refine ⟨hrefused, ?_⟩
  rw [(report_broken_only_by_strings hrefused { fatal := false }).1]
  decide

/-- **One problem on two lines.**  A string over two lines is left over after a number: the report
of this one problem has two line feeds. -/
theorem report_of_one_problem_on_two_lines :
    ∃ c, (quiet.add "1 \"a\nb\"").fault = some (.complaint c) ∧ c.diagnostics.length = 1 ∧
      (({ fatal := false } : Reporter).guard (some (.complaint c))).out
        = "\x1b[31m2: at '\"a\nb\"' - Expect end of expression.\x1b[0m\n" ∧
      lineFeeds (({ fatal := false } : Reporter).guard (some (.complaint c))).out = 2 :=
  ⟨⟨.parsing, [.about twoLines "Expect end of expression."], false⟩, rfl, rfl, by decide, by decide⟩

end Session

end LoxCalc
