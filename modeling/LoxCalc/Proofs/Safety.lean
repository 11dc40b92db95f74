import LoxCalc.Proofs.Parsing
import LoxCalc.Proofs.Soundness
import LoxCalc.Session

/-!
# No source text causes a defect

A source text is added to a new session and evaluated.  The tokens of the text
belong to its segments, so the tree that is parsed from them is sound, and from
there on only three things can happen: the tree has a value, one of its
operators complains, or a walk over the tree goes too deep.

* `Parser.ofTokens_scan`: there is a parser for the tokens of every text, and
  all tokens ahead of it belong to segments;
* `Scan.expr_cases`: a text gives a sound tree, or problems, or is nested too
  deeply;
* `Session.attempt_ends` puts these together.
-/

namespace LoxCalc

/-! ## The tokens of a text -/

/-- The images of segments are tokens of a text. -/
theorem lexed_of_gives {pieces : List Segment} {ts : List Token}
    (hgives : List.Forall₂ Gives pieces ts)
    (hpieces : ∀ s ∈ pieces, ∃ rest, Lexical s.cls s.text rest) : ∀ t ∈ ts, t.Lexed := by
  induction hgives with
  | nil => simp
  | @cons s t pieces ts hgive hrest ih =>
      intro u hu
      rcases List.mem_cons.mp hu with rfl | hu
      · obtain ⟨rest, hs⟩ := hpieces s List.mem_cons_self
        exact ⟨s, rest, hs, hgive⟩
      · exact ih (fun x hx => hpieces x (List.mem_cons_of_mem _ hx)) u hu

/-- The tokens of a text belong to its segments, and then comes an end mark. -/
theorem tokens_scan (source : String) :
    ∃ ts line, (scan source).tokens = ts ++ [Token.endOfSource line] ∧ ∀ t ∈ ts, t.Lexed := by
  have hpieces := (cut_segments source.toList).lexical
  obtain ⟨ts, htokens, hgives⟩ := Scan.tokens_ofSegments hpieces 1
  refine ⟨ts, _, htokens, lexed_of_gives hgives ?_⟩
  intro s hs
  exact hpieces s (List.mem_filter.mp hs).1

namespace Parser

/-- Parsing changes no token. -/
theorem tokens_parse (p : Parser) : p.parse.2.tokens = p.tokens := by
  have hread : (p.readBy .expression).2.tokens = p.tokens := tokens_move p _
  rw [parse_eq]
  split
  · split
    · exact hread
    · exact hread
  · exact hread

/-- There is a parser for the tokens of every text.  All tokens but the last are
ahead of it, and the last one is the end mark. -/
theorem ofTokens_scan (source : String) :
    ∃ p, ofTokens (scan source).tokens = .ok p ∧ p.errors = [] ∧
      (scan source).tokens = p.ahead ++ [p.stop] ∧ ∀ t ∈ p.ahead, t.Lexed := by
  obtain ⟨ts, line, htokens, hlexed⟩ := tokens_scan source
  have hend : (Token.endOfSource line).isEnd = true := rfl
  obtain ⟨p, hp, -, herrors, rfl, hstop⟩ :=
    ofTokens_concat (fun t ht => (hlexed t ht).isEnd_eq) hend
  rw [← htokens] at hp
  exact ⟨p, hp, herrors, by rw [htokens, hstop], hlexed⟩

/-- A tree that is parsed from tokens of a text is sound, and it is what the
reader found. -/
theorem sound_of_parse {p : Parser} (herrors : p.errors = []) (hlexed : ∀ t ∈ p.ahead, t.Lexed)
    {e : Expr} (he : p.parse.1 = some e) : e.Sound ∧ (p.readBy .expression).1 = e := by
  have hderives := (parse_eq_some_iff herrors).mp he
  have hread : (p.readBy .expression).1 = e :=
    congrArg Reading.expr (read_of_derives hderives p.stop)
  obtain ⟨d, hyield, rfl⟩ := hderives
  exact ⟨d.sound (by rwa [hyield]), hread⟩

end Parser

namespace Scan

/-- A text that is not nested too deeply gives a tree if there are no problems. -/
theorem expr_of_readable {s : Scan} {p : Parser} (hp : Parser.ofTokens s.tokens = .ok p)
    (h : (p.readBy .expression).1.isReadable = true) :
    s.expr = match p.parse.1, s.errors with
      | some e, [] => .ok e
      | _, _ => .error (.complaint ⟨.parsing, s.errors ++ p.parse.2.errors, false⟩) := by
  unfold expr
  rw [hp]
  simp only [Except.mapError, bind, Except.bind, Parser.parse?, if_pos h]
  rfl

/-- A text that is nested too deeply gives neither a tree nor problems. -/
theorem expr_of_not_readable {s : Scan} {p : Parser} (hp : Parser.ofTokens s.tokens = .ok p)
    (h : (p.readBy .expression).1.isReadable = false) : s.expr = .error .tooDeep := by
  unfold expr
  rw [hp]
  simp [Except.mapError, bind, Except.bind, Parser.parse?, h]

/-- A text gives a tree, or at least one problem, or it is nested too deeply. -/
theorem expr_cases {s : Scan} {p : Parser} (hp : Parser.ofTokens s.tokens = .ok p) :
    (∃ e, s.expr = .ok e ∧ p.parse.1 = some e) ∨
      (∃ ds, ds ≠ [] ∧ s.expr = .error (.complaint ⟨.parsing, ds, false⟩) ∧
        (s.errors ≠ [] ∨ p.parse.1 = none)) ∨
      (s.expr = .error .tooDeep ∧ (p.readBy .expression).1.isReadable = false) := by
  cases hreadable : (p.readBy .expression).1.isReadable with
  | false => exact .inr (.inr ⟨expr_of_not_readable hp hreadable, rfl⟩)
  | true =>
      have hexpr := expr_of_readable hp hreadable
      cases htree : p.parse.1 with
      | none =>
          rw [htree] at hexpr
          refine .inr (.inl ⟨_, ?_, hexpr, .inr rfl⟩)
          intro hnil
          have hparse := (List.append_eq_nil_iff.mp hnil).2
          obtain ⟨e, he⟩ := (Parser.errors_parse_eq_nil_iff p).mp hparse
          rw [htree] at he
          cases he
      | some e =>
          cases herrors : s.errors with
          | nil =>
              rw [htree, herrors] at hexpr
              exact .inl ⟨e, hexpr, rfl⟩
          | cons d ds =>
              rw [htree, herrors] at hexpr
              exact .inr (.inl ⟨_, by simp, hexpr, .inl (by simp)⟩)

end Scan

/-! ## Sessions -/

/-- Adds a source text to a session and evaluates the queue, unless adding has
failed. -/
def Session.attempt (s : Session) (source : String) : Outcome Session :=
  let added := s.add source
  match added.fault with
  | some f => ⟨added.out, added.state, some f⟩
  | none =>
    let ran := added.state.run
    ⟨added.out ++ ran.out, ran.state, ran.fault⟩

/-- How an attempt may end. -/
inductive Ending
  | value (v : Value)
  | parseError (problems : List Diagnostic)
  | evaluationError (op : Token) (message : String)
  | tooDeep

/-- The text has lexical problems, or its tokens are no expression. -/
def Malformed (source : String) : Prop :=
  (scan source).errors ≠ [] ∨
    ¬ ∃ e, Derives .expression (scan source).tokens.dropLast e

/-- What is read from a text is nested too deeply to be read, or has too many
levels to be shown. -/
def TooDeep (source : String) : Prop :=
  ∃ p, Parser.ofTokens (scan source).tokens = .ok p ∧
    ((p.readBy .expression).1.isReadable = false ∨
      Expr.levels 4 < (p.readBy .expression).1.height)

/-- An attempt at a text has ended in this way.  Whatever the end, nothing is
left in the queue. -/
inductive Ends (source : String) (o : Outcome Session) : Ending → Prop
  | value {e : Expr} {v : Value} (he : (scan source).expr = .ok e) (hv : e.eval = .ok v)
      (hfault : o.fault = none) (hstate : o.state.queue = [] ∧ o.state.results = [v]) :
      Ends source o (.value v)
  | parseError {problems : List Diagnostic} (hcause : Malformed source) (hne : problems ≠ [])
      (hfault : o.fault = some (.complaint ⟨.parsing, problems, false⟩))
      (hstate : o.state.queue = [] ∧ o.state.results = []) : Ends source o (.parseError problems)
  | evaluationError {e : Expr} {op : Token} {message : String} (he : (scan source).expr = .ok e)
      (hop : op ∈ e.operators) (herror : e.eval = .error (Value.typeError op message))
      (hfault : o.fault = some (.complaint ⟨.evaluation, [.about op message], false⟩))
      (hstate : o.state.queue = [] ∧ o.state.results = []) :
      Ends source o (.evaluationError op message)
  | tooDeep (hdeep : TooDeep source) (hfault : o.fault = some .tooDeep)
      (hstate : o.state.queue = [] ∧ o.state.results = []) : Ends source o .tooDeep

namespace Ends

variable {source : String} {o : Outcome Session} {ending ending' : Ending}

/-- There is only one way in which an attempt has ended. -/
theorem unique (h : Ends source o ending) (h' : Ends source o ending') : ending = ending' := by
  cases h <;> cases h' <;> simp_all [Diagnostic.about]

/-- None of these ends is a defect. -/
theorem fault_ne_defect (h : Ends source o ending) (d : Defect) : o.fault ≠ some (.defect d) := by
  cases h <;> simp_all

end Ends

/-- Nothing but the height keeps a tree from being dumped. -/
theorem Expr.dump?_cases (level : Int) (e : Expr) :
    e.dump? level = .ok (e.dump level) ∨
      (e.dump? level = .error .tooDeep ∧ levels 1 < e.height) := by
  unfold dump?
  by_cases hheight : e.height ≤ levels 1
  · exact .inl (if_pos hheight)
  · exact .inr ⟨if_neg hheight, Nat.lt_of_not_le hheight⟩

namespace Session

variable {interactive showTokens : Bool} {source : String} {e : Expr}

/-- Nothing happens to a new session if a text cannot be read. -/
theorem attempt_of_expr_error {f : Fault} (hf : (scan source).expr = .error f) :
    ({ interactive, showTokens } : Session).attempt source
      = ⟨listing { interactive, showTokens } (scan source).tokens, { interactive, showTokens },
        some f⟩ := by
  simp [attempt, add, hf]

/-- The dump of a tree is shown unless the tree has too many levels. -/
theorem dumping_cases (s : Session) (e : Expr) :
    (∃ text, s.dumping e = .ok text) ∨
      (s.dumping e = .error .tooDeep ∧ Expr.levels 1 < e.height) := by
  unfold dumping
  by_cases hshow : s.showTokens = true
  · rw [if_pos hshow]
    rcases e.dump?_cases 0 with hdump | ⟨hdump, hheight⟩ <;> rw [hdump]
    · exact .inl ⟨_, rfl⟩
    · exact .inr ⟨rfl, hheight⟩
  · rw [if_neg hshow]
    exact .inl ⟨_, rfl⟩

/-- A sound tree is queued unless it has too many levels to be shown. -/
theorem add_of_sound (s : Session) (he : (scan source).expr = .ok e) (hsound : e.Sound) :
    (∃ out, s.add source = ⟨out, { s with queue := s.queue ++ [e] }, none⟩) ∨
      ((∃ out, s.add source = ⟨out, s, some .tooDeep⟩) ∧ Expr.levels 4 < e.height) := by
  unfold add
  simp only [he]
  rcases dumping_cases s e with ⟨tree, hdump⟩ | ⟨hdump, hheight⟩
  · obtain ⟨text, -, hecho | ⟨hecho, hheight⟩⟩ := hsound.echo?_cases
    · simp only [hdump, hecho]
      exact .inl ⟨_, rfl⟩
    · simp only [hdump, hecho]
      exact .inr ⟨⟨_, rfl⟩, hheight⟩
  · simp only [hdump]
    -- dumping goes deeper than showing on one line
    exact .inr ⟨⟨_, rfl⟩, Nat.lt_trans (by decide) hheight⟩

/-- A queue of one sound tree is evaluated: there is a value, or an operator of
the tree complains, or the tree has too many levels. -/
theorem evalAll_of_sound (interactive : Bool) (hsound : e.Sound) :
    (∃ out v, e.eval = .ok v ∧ evalAll interactive [e] = ⟨out, [v], none⟩) ∨
      (∃ op message, op ∈ e.operators ∧ e.eval = .error (Value.typeError op message) ∧
        evalAll interactive [e] = ⟨"", [], some (Value.typeError op message)⟩) ∨
      (evalAll interactive [e] = ⟨"", [], some .tooDeep⟩ ∧ Expr.levels 3 < e.height) := by
  have hsettles := hsound.eval_settles
  rw [evalAll]
  rcases e.eval?_cases with heval | ⟨heval, hheight⟩
  · rw [heval]
    cases hresult : e.eval with
    | ok v =>
        rw [hresult] at hsettles
        cases hsettles with
        | value htext =>
            cases interactive with
            | true => exact .inl ⟨_, v, rfl, rfl⟩
            | false =>
                simp only [announce, htext]
                exact .inl ⟨_, v, rfl, rfl⟩
    | error f =>
        rw [hresult] at hsettles
        cases hsettles with
        | complaint hop message => exact .inr (.inl ⟨_, message, hop, rfl, rfl⟩)
  · rw [heval]
    exact .inr (.inr ⟨rfl, hheight⟩)

/-- An attempt at a text that gives a sound tree ends in a value, in a complaint
about an operator of the tree, or because the tree has too many levels. -/
theorem ends_of_sound (he : (scan source).expr = .ok e) (hsound : e.Sound)
    (hdeep : Expr.levels 4 < e.height → TooDeep source) :
    ∃ ending, Ends source (({ interactive, showTokens } : Session).attempt source) ending := by
  unfold attempt
  rcases add_of_sound { interactive, showTokens } he hsound with
    ⟨out, hadd⟩ | ⟨⟨out, hadd⟩, hheight⟩
  · simp only [hadd, run, List.nil_append]
    rcases evalAll_of_sound interactive hsound with
      ⟨printed, v, hv, hrun⟩ | ⟨op, message, hop, herror, hrun⟩ | ⟨hrun, hheight⟩
    · rw [hrun]
      exact ⟨.value v, .value he hv rfl ⟨rfl, rfl⟩⟩
    · rw [hrun]
      exact ⟨.evaluationError op message, .evaluationError he hop herror rfl ⟨rfl, rfl⟩⟩
    · rw [hrun]
      -- evaluation goes deeper than showing on one line
      exact ⟨.tooDeep, .tooDeep (hdeep (Nat.lt_trans (by decide) hheight)) rfl ⟨rfl, rfl⟩⟩
  · simp only [hadd]
    exact ⟨.tooDeep, .tooDeep (hdeep hheight) rfl ⟨rfl, rfl⟩⟩

/-- Every attempt at a text in a new session has an end. -/
theorem exists_ends (interactive showTokens : Bool) (source : String) :
    ∃ ending, Ends source (({ interactive, showTokens } : Session).attempt source) ending := by
  obtain ⟨p, hp, herrors, htokens, hlexed⟩ := Parser.ofTokens_scan source
  rcases Scan.expr_cases hp with ⟨e, he, htree⟩ | ⟨ds, hne, hexpr, hcause⟩ | ⟨hexpr, hread⟩
  · obtain ⟨hsound, hread⟩ := Parser.sound_of_parse herrors hlexed htree
    refine ends_of_sound he hsound ?_
    intro hheight
    exact ⟨p, hp, .inr (by rwa [hread])⟩
  · rw [attempt_of_expr_error hexpr]
    have hmalformed : Malformed source := by
      rcases hcause with hscan | hnone
      · exact .inl hscan
      · right
        rintro ⟨e, he⟩
        rw [htokens, List.dropLast_concat, ← Parser.parse_eq_some_iff herrors, hnone] at he
        cases he
    exact ⟨.parseError ds, .parseError hmalformed hne rfl ⟨rfl, rfl⟩⟩
  · rw [attempt_of_expr_error hexpr]
    exact ⟨.tooDeep, .tooDeep ⟨p, hp, .inl hread⟩ rfl ⟨rfl, rfl⟩⟩

/-- **No source text causes a defect.**  An attempt at any text in a new session
ends in exactly one way: in a value, in problems of the text, in a complaint
about one operator of the tree, or because something is nested too deeply, and
never in a defect.  Reading segment after segment never leaves the text, there
is a parser for the tokens of the text, and wherever it stands there is a token.
Every tree that it gives can be shown and dumped, up to the limit of levels. -/
theorem attempt_ends (interactive showTokens : Bool) (source : String) :
    (∃! ending, Ends source (({ interactive, showTokens } : Session).attempt source) ending) ∧
      (∀ d, (({ interactive, showTokens } : Session).attempt source).fault
        ≠ some (.defect d)) ∧
      (∀ n, ∃ c, (Cursor.ofSource source).rounds n = .ok c ∧ c.current ≤ source.length) ∧
      (∀ q : Parser, q.tokens = (scan source).tokens →
        (scan source).tokens[q.position]? = some q.peek) ∧
      ∃ p, Parser.ofTokens (scan source).tokens = .ok p ∧
        p.parse.2.tokens = (scan source).tokens ∧
        ∀ e, p.parse.1 = some e →
          (∃ text, e.echo = .ok text ∧
            (e.echo? = .ok text ∨ e.echo? = .error .tooDeep ∧ Expr.levels 4 < e.height)) ∧
          ∀ level, e.dump? level = .ok (e.dump level) ∨
            e.dump? level = .error .tooDeep ∧ Expr.levels 1 < e.height := by
  obtain ⟨ending, hends⟩ := exists_ends interactive showTokens source
  obtain ⟨p, hp, herrors, -, hlexed⟩ := Parser.ofTokens_scan source
  refine ⟨⟨ending, hends, fun _ h => h.unique hends⟩, hends.fault_ne_defect, ?_, ?_, p, hp,
    p.tokens_parse.trans (Parser.tokens_ofTokens hp), ?_⟩
  · intro n
    obtain ⟨c, hrounds, -, hcurrent⟩ := Cursor.rounds_ofSource n source
    exact ⟨c, hrounds, hcurrent⟩
  · intro q hq
    rw [← hq]
    exact q.getElem?_position
  · intro e he
    obtain ⟨hsound, -⟩ := Parser.sound_of_parse herrors hlexed he
    refine ⟨hsound.echo?_cases, ?_⟩
    intro level
    exact e.dump?_cases level

end Session

end LoxCalc
