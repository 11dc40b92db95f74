import LoxCalc.Proofs.Independence

/-!
# What the stages make of a text

A text is scanned and parsed, its tree is shown, and the tree is evaluated; each
stage works on what the one before it gives.  The **verdict** on a text says how
far this goes and holds what the user gets to see of it.  It is the same for a
file and for a line of the shell: only who prints the value differs.

* `exists_stages`: there is a verdict on every text;
* `Stages.attempt` and `Stages.answer`: a session outside the shell and one under
  it print what the verdict shows and fail with its fault;
* `Verdict.shown_append_guard`: the reporter completes what is shown.
-/

namespace LoxCalc

open Console

/-- What the interpreter makes of a text. -/
inductive Verdict
  /-- The text has problems. -/
  | rejected (problems : List Diagnostic)
  /-- The text is nested too deeply to be read, or its tree to be shown. -/
  | tooDeep
  /-- The tree is shown, and an operator does not suit its operands. -/
  | mismatch (echoed : String) (op : Token) (message : String)
  /-- The tree is shown, and it has a value. -/
  | value (echoed printed : String)

namespace Verdict

/-- All that is printed for a text: its problems in red, or its tree in yellow
and then its value or what is wrong with an operator. -/
def text : Verdict → String
  | rejected problems => String.join (problems.map fun d => line (red d.render))
  | tooDeep => line (red "expression is nested too deeply")
  | mismatch echoed op message =>
    line (yellow echoed) ++ line (red (Diagnostic.about op message).render)
  | value echoed printed => line (yellow echoed) ++ line printed

/-- The part of it that is printed before the reporter is told of a fault. -/
def shown : Verdict → String
  | rejected _ | tooDeep => ""
  | mismatch echoed _ _ => line (yellow echoed)
  | value echoed printed => line (yellow echoed) ++ line printed

/-- The fault that the reporter is told of. -/
def fault : Verdict → Option Fault
  | rejected problems => some (.complaint ⟨.parsing, problems, false⟩)
  | tooDeep => some .tooDeep
  | mismatch _ op message => some (Value.typeError op message)
  | value _ _ => none

/-- The diagnostics that the reporter counts. -/
def cost : Verdict → Nat
  | rejected problems => problems.length
  | tooDeep | mismatch _ _ _ => 1
  | value _ _ => 0

variable (v : Verdict) (r : Reporter)

/-- The reporter completes what is shown. -/
theorem shown_append_guard : v.shown ++ (r.guard v.fault).out = v.text := by
  cases v with
  | rejected problems => exact String.empty_append
  | tooDeep =>
      refine String.empty_append.trans ?_
      exact String.empty_append
  | mismatch echoed op message =>
      refine congrArg (line (yellow echoed) ++ ·) ?_
      exact String.empty_append
  | value echoed printed => exact String.append_empty

/-- The reporter counts the diagnostics of a verdict. -/
theorem state_guard : (r.guard v.fault).state = r.advanced v.cost := by
  cases v <;> rfl

/-- A fatal reporter ends the program if there is a fault. -/
theorem fault_guard_of_fatal (hr : r.fatal = true) :
    (r.guard v.fault).fault = v.fault.map fun _ => .exit (.code 1) := by
  cases v <;> simp [fault, Value.typeError, Reporter.guard, Reporter.throw, hr]

end Verdict

/-! ## The stages -/

/-- The text has no problems, and this is its tree.  It can be read. -/
structure Accepted (source : String) (e : Expr) : Prop where
  errors : (scan source).errors = []
  parsed : ∃ p, Parser.ofTokens (scan source).tokens = .ok p ∧ p.parse.1 = some e
  readable : e.isReadable = true

/-- The stages come to a verdict on a text.

* The problems found in scanning come before those found in parsing.  If there
  are any, there is nothing to be shown or evaluated.
* A tree that is too high to be shown is not evaluated.
* A tree is shown before it is evaluated. -/
inductive Stages (source : String) : Verdict → Prop
  | unreadable {p : Parser} (hp : Parser.ofTokens (scan source).tokens = .ok p)
      (hread : (p.readBy .expression).1.isReadable = false) : Stages source .tooDeep
  | rejected {p : Parser} (hp : Parser.ofTokens (scan source).tokens = .ok p)
      (hread : (p.readBy .expression).1.isReadable = true)
      (hne : (scan source).errors ++ p.parse.2.errors ≠ []) :
      Stages source (.rejected ((scan source).errors ++ p.parse.2.errors))
  | high {e : Expr} (he : Accepted source e) (hheight : Expr.levels 4 < e.height) :
      Stages source .tooDeep
  | mismatch {e : Expr} {echoed : String} {op : Token} {message : String}
      (he : Accepted source e) (hheight : e.height ≤ Expr.levels 4)
      (hecho : e.echo = .ok echoed) (heval : e.eval = .error (Value.typeError op message)) :
      Stages source (.mismatch echoed op message)
  | value {e : Expr} {v : Value} {echoed printed : String}
      (he : Accepted source e) (hheight : e.height ≤ Expr.levels 4)
      (hecho : e.echo = .ok echoed) (heval : e.eval = .ok v) (htext : v.text = .ok printed) :
      Stages source (.value echoed printed)

/-- A text that has problems and is not nested too deeply gives just these problems. -/
theorem Scan.expr_of_problems {source : String} {p : Parser}
    (hp : Parser.ofTokens (scan source).tokens = .ok p)
    (hread : (p.readBy .expression).1.isReadable = true)
    (hne : (scan source).errors ++ p.parse.2.errors ≠ []) :
    (scan source).expr
      = .error (.complaint ⟨.parsing, (scan source).errors ++ p.parse.2.errors, false⟩) := by
  rw [Scan.expr_of_readable hp hread]
  split
  next e htree hscan =>
    have hparse := (Parser.errors_parse_eq_nil_iff p).mpr ⟨e, htree⟩
    exact absurd (by rw [hscan, hparse]; rfl) hne
  next => rfl

namespace Accepted

variable {source : String} {e : Expr}

/-- The tree of a text without problems is what the session works on. -/
theorem expr (h : Accepted source e) : (scan source).expr = .ok e := by
  obtain ⟨p, hp, htree⟩ := h.parsed
  obtain ⟨q, hq, herrors, -, hlexed⟩ := Parser.ofTokens_scan source
  obtain rfl : p = q := Except.ok.inj (hp.symm.trans hq)
  obtain ⟨-, hread⟩ := Parser.sound_of_parse herrors hlexed htree
  rw [Scan.expr_of_readable hp (by rw [hread]; exact h.readable), htree, h.errors]

theorem sound (h : Accepted source e) : e.Sound :=
  Scan.sound_of_expr h.expr

/-- A tree that can be shown has a value that can be printed, or one of its
operators complains. -/
theorem stages (he : Accepted source e) (hheight : e.height ≤ Expr.levels 4) :
    ∃ echoed, e.echo = .ok echoed ∧
      ((∃ v printed, e.eval = .ok v ∧ v.text = .ok printed ∧
          Stages source (.value echoed printed)) ∨
        ∃ op message, e.eval = .error (Value.typeError op message) ∧
          Stages source (.mismatch echoed op message)) := by
  obtain ⟨echoed, hecho⟩ := he.sound.echo_ok
  have hsettles := he.sound.eval_settles
  refine ⟨echoed, hecho, ?_⟩
  cases heval : e.eval with
  | ok v =>
      rw [heval] at hsettles
      cases hsettles with
      | value htext => exact .inl ⟨v, _, rfl, htext, .value he hheight hecho heval htext⟩
  | error f =>
      rw [heval] at hsettles
      cases hsettles with
      | complaint hop message => exact .inr ⟨_, message, rfl, .mismatch he hheight hecho heval⟩

end Accepted

/-- **There is a verdict on every text.** -/
theorem exists_stages (source : String) : ∃ v, Stages source v := by
  obtain ⟨p, hp, herrors, -, hlexed⟩ := Parser.ofTokens_scan source
  cases hreadable : (p.readBy .expression).1.isReadable with
  | false => exact ⟨_, .unreadable hp hreadable⟩
  | true =>
      by_cases hne : (scan source).errors ++ p.parse.2.errors = []
      · obtain ⟨hscan, hparse⟩ := List.append_eq_nil_iff.mp hne
        obtain ⟨e, htree⟩ := (Parser.errors_parse_eq_nil_iff p).mp hparse
        obtain ⟨-, hread⟩ := Parser.sound_of_parse herrors hlexed htree
        rw [hread] at hreadable
        have he : Accepted source e := ⟨hscan, ⟨p, hp, htree⟩, hreadable⟩
        by_cases hheight : e.height ≤ Expr.levels 4
        · obtain ⟨echoed, -, ⟨_, _, -, -, hv⟩ | ⟨_, _, -, hv⟩⟩ := he.stages hheight
          · exact ⟨_, hv⟩
          · exact ⟨_, hv⟩
        · exact ⟨_, .high he (Nat.lt_of_not_le hheight)⟩
      · exact ⟨_, .rejected hp hreadable hne⟩

/-! ## Sessions -/

/-- A tree that can be shown can be evaluated without reaching the limit. -/
theorem Expr.eval?_of_showable {e : Expr} (hheight : e.height ≤ levels 4) : e.eval? = e.eval :=
  evalWithin_of_height_le (Nat.le_trans hheight (by decide))

namespace Session

variable {source : String} {e : Expr} {echoed : String}

/-- An attempt at a text without problems shows its tree and evaluates it. -/
theorem attempt_of_accepted (interactive : Bool) (he : Accepted source e)
    (hheight : e.height ≤ Expr.levels 4) (hecho : e.echo = .ok echoed) :
    ({ interactive, showTokens := false } : Session).attempt source
      = ⟨line (yellow echoed) ++ (evalAll interactive [e]).out,
        { interactive, showTokens := false, results := (evalAll interactive [e]).state },
        (evalAll interactive [e]).fault⟩ := by
  have hshown : e.echo? = .ok echoed := by
    rw [Expr.echo?, Expr.echoWithin_of_height_le hheight, hecho]
    rfl
  simp [attempt, add, he.expr, listing, dumping, hshown, run]

/-- An attempt at a text whose tree is too high shows nothing. -/
theorem attempt_of_high (interactive : Bool) (he : Accepted source e)
    (hheight : Expr.levels 4 < e.height) :
    ({ interactive, showTokens := false } : Session).attempt source
      = ⟨"", { interactive, showTokens := false }, some .tooDeep⟩ := by
  have hshown : e.echo? = .error .tooDeep := he.sound.echoWithin_of_lt_height hheight
  simp [attempt, add, he.expr, listing, dumping, hshown]

theorem evalAll_of_eval_error (interactive : Bool) (hheight : e.height ≤ Expr.levels 4) {f : Fault}
    (heval : e.eval = .error f) : evalAll interactive [e] = ⟨"", [], some f⟩ := by
  simp [evalAll, Expr.eval?_of_showable hheight, heval]

theorem evalAll_of_eval_ok {interactive : Bool} (hheight : e.height ≤ Expr.levels 4) {v : Value}
    (heval : e.eval = .ok v) {printed : String} (hprinted : announce interactive v = .ok printed) :
    evalAll interactive [e] = ⟨printed, [v], none⟩ := by
  simp [evalAll, Expr.eval?_of_showable hheight, heval, hprinted]

end Session

/-- **A session outside the shell follows the verdict.** -/
theorem Stages.attempt {source : String} {v : Verdict} (h : Stages source v) :
    ∃ s, ({ interactive := false, showTokens := false } : Session).attempt source
      = ⟨v.shown, s, v.fault⟩ := by
  cases h with
  | unreadable hp hread =>
      exact ⟨_, Session.attempt_of_expr_error (Scan.expr_of_not_readable hp hread)⟩
  | rejected hp hread hne =>
      exact ⟨_, Session.attempt_of_expr_error (Scan.expr_of_problems hp hread hne)⟩
  | high he hheight => exact ⟨_, Session.attempt_of_high false he hheight⟩
  | mismatch he hheight hecho heval =>
      rw [Session.attempt_of_accepted false he hheight hecho,
        Session.evalAll_of_eval_error false hheight heval]
      exact ⟨_, congrArg (Outcome.mk · _ _) String.append_empty⟩
  | @value e w echoed printed he hheight hecho heval htext =>
      have hprinted : Session.announce false w = .ok (line printed) := by
        rw [Session.announce, htext]
        rfl
      rw [Session.attempt_of_accepted false he hheight hecho,
        Session.evalAll_of_eval_ok hheight heval hprinted]
      exact ⟨_, rfl⟩

/-- **A session under the shell follows the verdict**: it prints the value itself. -/
theorem Stages.answer {source : String} {v : Verdict} (h : Stages source v) :
    ∃ s, ({ interactive := true, showTokens := false } : Session).answer source
      = ⟨v.shown, s, v.fault⟩ := by
  rw [Session.answer_eq]
  cases h with
  | unreadable hp hread =>
      rw [Session.attempt_of_expr_error (Scan.expr_of_not_readable hp hread)]
      exact ⟨_, rfl⟩
  | rejected hp hread hne =>
      rw [Session.attempt_of_expr_error (Scan.expr_of_problems hp hread hne)]
      exact ⟨_, rfl⟩
  | high he hheight =>
      rw [Session.attempt_of_high true he hheight]
      exact ⟨_, rfl⟩
  | mismatch he hheight hecho heval =>
      rw [Session.attempt_of_accepted true he hheight hecho,
        Session.evalAll_of_eval_error true hheight heval]
      exact ⟨_, congrArg (Outcome.mk · _ _) String.append_empty⟩
  | @value e w echoed printed he hheight hecho heval htext =>
      have hsilent : Session.announce true w = .ok "" := rfl
      rw [Session.attempt_of_accepted true he hheight hecho,
        Session.evalAll_of_eval_ok hheight heval hsilent]
      -- the one result is taken, and the shell prints it
      simp only [Session.pop, List.getLast?_singleton, htext]
      exact ⟨_, congrArg (Outcome.mk · _ _) (by simp [Verdict.shown])⟩

end LoxCalc
