import LoxCalc.Program
import LoxCalc.Proofs.Safety
import Mathlib.Algebra.Order.Ring.Nat
import Mathlib.Data.List.Induction

/-!
# Lines do not influence each other

A shell that has answered lines before is a new shell that is **advanced**: its
reporter has counted more diagnostics and it remembers another command.
Nothing else is left of the lines, because each of them ends with an empty
queue and without results, whatever has happened on the way.

* `Session.answer_idle`: a text leaves an idle session as it was, and no defect
  comes of it;
* `Shell.reply_fresh`: a line leaves a new shell advanced;
* `Shell.reply_advanced`: an advanced shell answers like the shell itself.

Hence what a line prints does not depend on the lines before (`lines_independent`),
and a conversation prints, line by line, what new shells would print.
-/

namespace LoxCalc

open Console

/-! ## A text in an idle session -/

namespace Session

/-- Adding a text queues at most one expression and changes nothing else. -/
theorem state_add (s : Session) (source : String) :
    (s.add source).state = s ∨ ∃ e, (s.add source).state = { s with queue := s.queue ++ [e] } := by
  simp only [add]
  split
  · exact .inl rfl
  · split
    · exact .inl rfl
    · split
      · exact .inl rfl
      · exact .inr ⟨_, rfl⟩

/-- An attempt at a text does not change the mode of a session. -/
theorem mode_attempt (s : Session) (source : String) :
    (s.attempt source).state.interactive = s.interactive ∧
      (s.attempt source).state.showTokens = s.showTokens := by
  simp only [attempt]
  rcases s.state_add source with hadd | ⟨e, hadd⟩
  · split <;> simp [hadd, run]
  · split <;> simp [hadd, run]

/-- A session that has nothing queued and no results is told by its mode. -/
theorem eq_of_empty {s : Session} {interactive showTokens : Bool}
    (hmode : s.interactive = interactive ∧ s.showTokens = showTokens)
    (hempty : s.queue = [] ∧ s.results = []) : s = { interactive, showTokens } := by
  obtain ⟨i, t, queue, results⟩ := s
  simp_all

/-- An answer is an attempt whose latest result is taken and printed. -/
theorem answer_eq (s : Session) (source : String) :
    s.answer source =
      match (s.attempt source).fault with
      | some f => ⟨(s.attempt source).out, (s.attempt source).state, some f⟩
      | none =>
        match (s.attempt source).state.pop with
        | .error _ => ⟨(s.attempt source).out, (s.attempt source).state, none⟩
        | .ok (v, s') =>
          match v.text with
          | .error d => ⟨(s.attempt source).out, s', some (.defect d)⟩
          | .ok text => ⟨(s.attempt source).out ++ line text, s', none⟩ := by
  simp only [answer, attempt]
  cases (s.add source).fault with
  | some f => rfl
  | none => rfl

end Session

/-- The tree of a text is sound. -/
theorem Scan.sound_of_expr {source : String} {e : Expr} (h : (scan source).expr = .ok e) :
    e.Sound := by
  obtain ⟨p, hp, herrors, -, hlexed⟩ := Parser.ofTokens_scan source
  rcases Scan.expr_cases hp with ⟨e', he', htree⟩ | ⟨ds, -, hexpr, -⟩ | ⟨hexpr, -⟩
  · obtain rfl := Except.ok.inj (h.symm.trans he')
    exact (Parser.sound_of_parse herrors hlexed htree).1
  · rw [hexpr] at h
    cases h
  · rw [hexpr] at h
    cases h

/-- A fault that the user is told about and that goes no further. -/
inductive Fault.Reported : Option Fault → Prop
  | none : Reported none
  | complaint (c : Complaint) : Reported (some (.complaint c))
  | tooDeep : Reported (some .tooDeep)

/-- **A text leaves an idle session as it was**, however the attempt at it ends. -/
theorem Session.answer_idle (interactive showTokens : Bool) (source : String) :
    (({ interactive, showTokens } : Session).answer source).state = { interactive, showTokens } ∧
      Fault.Reported (({ interactive, showTokens } : Session).answer source).fault := by
  obtain ⟨ending, hends⟩ := exists_ends interactive showTokens source
  have hmode := mode_attempt { interactive, showTokens } source
  rw [answer_eq]
  cases hends with
  | @value e v he hv hfault hstate =>
      have hsettles := (Scan.sound_of_expr he).eval_settles
      rw [hv] at hsettles
      cases hsettles with
      | @value _ text htext =>
          -- the one result is taken, and it can be printed
          simp only [hfault, pop, hstate.2, List.getLast?_singleton, htext]
          exact ⟨eq_of_empty hmode ⟨hstate.1, rfl⟩, .none⟩
  | parseError hcause hne hfault hstate =>
      simp only [hfault]
      exact ⟨eq_of_empty hmode hstate, .complaint _⟩
  | evaluationError he hop herror hfault hstate =>
      simp only [hfault]
      exact ⟨eq_of_empty hmode hstate, .complaint _⟩
  | tooDeep hdeep hfault hstate =>
      simp only [hfault]
      exact ⟨eq_of_empty hmode hstate, .tooDeep⟩

/-! ## Reporters that have counted before -/

namespace Reporter

/-- The reporter, with `n` more diagnostics counted. -/
def advanced (n : Nat) (r : Reporter) : Reporter :=
  { r with errors := r.errors + n }

theorem advanced_advanced (m n : Nat) (r : Reporter) :
    (r.advanced m).advanced n = r.advanced (m + n) := by
  simp [advanced, Nat.add_assoc]

/-- A reporter deals with a fault in the same way, whatever it has counted. -/
theorem guard_advanced (n : Nat) (r : Reporter) (f : Option Fault) :
    (r.advanced n).guard f =
      ⟨(r.guard f).out, (r.guard f).state.advanced n, (r.guard f).fault⟩ := by
  have hthrow : ∀ c, (r.advanced n).throw c =
      ⟨(r.throw c).out, (r.throw c).state.advanced n, (r.throw c).fault⟩ := by
    intro c
    have hcount := Nat.add_right_comm r.errors n c.diagnostics.length
    simp only [throw, advanced, hcount]
    rfl
  match f with
  | none => rfl
  | some (.exit _) => rfl
  | some (.interrupt _) => exact hthrow _
  | some .tooDeep => exact hthrow _
  | some (.complaint _) => exact hthrow _
  | some (.defect _) => simp only [guard, hthrow]

/-- A reporter that is not fatal counts what it is told and goes on. -/
theorem guard_reported {r : Reporter} (hr : r.fatal = false) {f : Option Fault}
    (hf : Fault.Reported f) :
    (∃ n, (r.guard f).state = r.advanced n) ∧ (r.guard f).fault = none := by
  cases hf with
  | none => exact ⟨⟨0, rfl⟩, rfl⟩
  | complaint c => exact ⟨⟨c.diagnostics.length, rfl⟩, by simp [guard, throw, hr]⟩
  | tooDeep => exact ⟨⟨1, rfl⟩, by simp [guard, throw, hr]⟩

end Reporter

/-! ## Shells that have answered before -/

namespace Shell

/-- The shell, with `n` more diagnostics counted and another command remembered. -/
def advanced (n : Nat) (command : String) (sh : Shell) : Shell :=
  { sh with reporter := sh.reporter.advanced n, lastCommand := command }

theorem advanced_advanced (m n : Nat) (c c' : String) (sh : Shell) :
    (sh.advanced m c).advanced n c' = sh.advanced (m + n) c' := by
  simp [advanced, Reporter.advanced_advanced]

/-- A line is cut into a command, which is carried out, and what is to be
remembered. -/
theorem reply_eq (sh : Shell) (source : String) :
    sh.reply source
      = perform { sh with lastCommand := (parseLine source).2.getD sh.lastCommand }
        (parseLine source).1 := rfl

/-- **An advanced shell answers like the shell itself**: what it prints, whether
it stops and what goes wrong are the same, and the count goes on. -/
theorem reply_advanced (n : Nat) (command : String) (sh : Shell) (source : String) :
    ∃ command', (sh.advanced n command).reply source =
      ⟨(sh.reply source).out, (sh.reply source).shell.advanced n command',
        (sh.reply source).stop, (sh.reply source).fault⟩ := by
  refine ⟨(parseLine source).2.getD command, ?_⟩
  rw [reply_eq, reply_eq]
  cases (parseLine source).1 with
  | expression text =>
      have hguard := Reporter.guard_advanced n sh.reporter (sh.session.answer text).fault
      simp only [perform, evaluate, advanced, hguard]
  | _ => rfl

/-- **A line leaves a new shell advanced**, and nothing goes further than the
reporter. -/
theorem reply_fresh (showTokens : Bool) (source : String) :
    (∃ n command, ((fresh showTokens).reply source).shell
      = (fresh showTokens).advanced n command) ∧
      ((fresh showTokens).reply source).fault = none := by
  rw [reply_eq]
  cases (parseLine source).1 with
  | expression text =>
      obtain ⟨hstate, hreported⟩ := Session.answer_idle true showTokens text
      obtain ⟨⟨n, hcount⟩, hfault⟩ :=
        Reporter.guard_reported (r := (fresh showTokens).reporter) rfl hreported
      refine ⟨⟨n, (parseLine source).2.getD (fresh showTokens).lastCommand, ?_⟩, hfault⟩
      simp only [perform, evaluate, advanced]
      rw [← hcount]
      simp only [fresh, hstate]
  | _ => exact ⟨⟨0, _, rfl⟩, rfl⟩

/-- The diagnostics that a line costs if it is given to a new shell. -/
def cost (showTokens : Bool) (source : String) : Nat :=
  ((fresh showTokens).reply source).shell.reporter.errors

/-- The shell after lines, also after those that come when it has been asked to
end. -/
def after (sh : Shell) (sources : List String) : Shell :=
  sources.foldl (fun sh source => (sh.reply source).shell) sh

/-- One line, after any number of others. -/
theorem reply_of_advanced (showTokens : Bool) (n : Nat) (command source : String) :
    ∃ command', ((fresh showTokens).advanced n command).reply source =
      ⟨((fresh showTokens).reply source).out,
        (fresh showTokens).advanced (n + cost showTokens source) command',
        ((fresh showTokens).reply source).stop, none⟩ := by
  obtain ⟨command', hreply⟩ := reply_advanced n command (fresh showTokens) source
  obtain ⟨⟨m, c, hshell⟩, hfault⟩ := reply_fresh showTokens source
  have hcost : cost showTokens source = m := by
    rw [cost, hshell]
    exact Nat.zero_add m
  refine ⟨command', ?_⟩
  rw [hreply, hshell, hfault, advanced_advanced, hcost, Nat.add_comm]

/-- **All that is left of lines is a count** and the command remembered last. -/
theorem after_fresh (showTokens : Bool) (sources : List String) :
    ∃ command, (fresh showTokens).after sources
      = (fresh showTokens).advanced (sources.map (cost showTokens)).sum command := by
  induction sources using List.reverseRecOn with
  | nil => exact ⟨_, rfl⟩
  | append_singleton sources source ih =>
      obtain ⟨command, hafter⟩ := ih
      obtain ⟨command', hreply⟩ := reply_of_advanced showTokens
        (sources.map (cost showTokens)).sum command source
      refine ⟨command', ?_⟩
      rw [after, List.foldl_append] at *
      simp only [List.foldl_cons, List.foldl_nil]
      rw [hafter, hreply]
      simp

/-! ## Conversations -/

/-- Does the line ask for the end of the shell? -/
def isLast (source : String) : Bool :=
  match (parseLine source).1 with
  | .exit | .endOfInput => true
  | _ => false

/-- The lines that are answered: up to the first one that asks for the end, the
end of the input being a line that does. -/
def answered (sources : List String) : List String :=
  (sources ++ ["EOF"]).take ((sources ++ ["EOF"]).findIdx isLast + 1)

theorem stop_reply (sh : Shell) (source : String) : (sh.reply source).stop = isLast source := by
  rw [reply_eq, isLast]
  cases (parseLine source).1 <;> rfl

theorem isLast_EOF : isLast "EOF" = true := by decide

theorem answered_nil : answered [] = ["EOF"] := by
  simp [answered, isLast_EOF]

theorem answered_cons_of_isLast {source : String} (h : isLast source = true)
    (rest : List String) : answered (source :: rest) = [source] := by
  simp [answered, List.findIdx_cons, h]

theorem answered_cons {source : String} (h : isLast source = false) (rest : List String) :
    answered (source :: rest) = source :: answered rest := by
  simp [answered, List.findIdx_cons, h]

/-- What a conversation prints: the prompt and the answer of a new shell to each
line. -/
def transcript (showTokens : Bool) (sources : List String) : String :=
  String.join (sources.map fun source => prompt ++ ((fresh showTokens).reply source).out)

/-- **A conversation prints what new shells print**, whatever lines came before it. -/
theorem converse_advanced (showTokens : Bool) (n : Nat) (command : String)
    (sources : List String) :
    (((fresh showTokens).advanced n command).converse sources).out
        = transcript showTokens (answered sources) ∧
      (((fresh showTokens).advanced n command).converse sources).fault = none := by
  induction sources generalizing n command with
  | nil =>
      obtain ⟨command', hreply⟩ := reply_of_advanced showTokens n command "EOF"
      rw [converse, hreply, answered_nil]
      simp [transcript, String.join]
  | cons source rest ih =>
      obtain ⟨command', hreply⟩ := reply_of_advanced showTokens n command source
      rw [converse, hreply]
      cases hlast : isLast source with
      | true =>
          simp [stop_reply, hlast, answered_cons_of_isLast hlast, transcript, String.join]
      | false =>
          obtain ⟨hout, hfault⟩ := ih (n + cost showTokens source) command'
          simp [stop_reply, hlast, answered_cons hlast, transcript, hout, hfault]

end Shell

/-- **Lines do not influence each other.**  Take a new shell and any lines before
a line.  The line prints and stops as it does in a new shell, no fault gets past
the reporter, nothing is left in the queue or among the results, and the
diagnostics counted are those that each line costs alone.  Hence the program
without a file always ends without a fault; it prints the intro and then the
prompt and the answer of a new shell to each line, up to the first one that
asks for the end. -/
theorem lines_independent (showTokens : Bool) :
    (∀ before source,
      let reply := ((Shell.fresh showTokens).after before).reply source
      let alone := (Shell.fresh showTokens).reply source
      reply.out = alone.out ∧ reply.stop = alone.stop ∧ reply.fault = none ∧
        reply.shell.session.queue = [] ∧ reply.shell.session.results = [] ∧
        reply.shell.reporter.errors
          = ((before ++ [source]).map fun source =>
              ((Shell.fresh showTokens).reply source).shell.reporter.errors).sum) ∧
      ∀ args files input, Request.ofArguments args = .run none showTokens →
        (Program.run args files input).fault = none ∧
          (Program.run args files input).err = "" ∧
          (Program.run args files input).out = line Shell.intro ++ Shell.transcript showTokens
            (Shell.answered (Text.lines (Text.unifyNewlines input.toList))) := by
  constructor
  · intro before source
    obtain ⟨command, hafter⟩ := Shell.after_fresh showTokens before
    obtain ⟨command', hreply⟩ := Shell.reply_of_advanced showTokens
      (before.map (Shell.cost showTokens)).sum command source
    rw [hafter, hreply]
    refine ⟨rfl, rfl, rfl, rfl, rfl, ?_⟩
    have hcount : (before.map (Shell.cost showTokens)).sum + Shell.cost showTokens source
        = ((before ++ [source]).map (Shell.cost showTokens)).sum := by simp
    exact (Nat.zero_add _).trans hcount
  · intro args files input hargs
    obtain ⟨hout, hfault⟩ := Shell.converse_advanced showTokens 0 ""
      (Text.lines (Text.unifyNewlines input.toList))
    have hnew : (Shell.fresh showTokens).advanced 0 "" = Shell.fresh showTokens := rfl
    have hrun : Program.run args files input = Program.runShell input showTokens := by
      rw [Program.run, hargs]
    rw [hnew] at hout hfault
    rw [hrun, Program.runShell, hout, hfault]
    exact ⟨rfl, rfl, String.append_empty⟩

/-- Lines with errors in them, a line that ends the shell, and one after it. -/
theorem lines_independent_errors :
    Request.ofArguments [] = .run none false ∧
      (((Shell.fresh false).after ["1 +", "-nil", "exit"]).reply "(").fault = none ∧
      (((Shell.fresh false).after ["1 +", "-nil", "exit"]).reply "(").shell.reporter.errors = 4 ∧
      (Program.run [] (fun _ => none) "1 +\n-nil\nexit\n(").fault = none ∧
      (Program.run [] (fun _ => none) "1 +\n-nil\nexit\n(").out
        = line Shell.intro ++ Shell.transcript false ["1 +", "-nil", "exit"] := by
  obtain ⟨hlines, hprogram⟩ := lines_independent false
  obtain ⟨-, -, hfault, -, -, herrors⟩ := hlines ["1 +", "-nil", "exit"] "("
  have hargs : Request.ofArguments [] = .run none false := by decide
  obtain ⟨hdone, -, hout⟩ := hprogram [] (fun _ => none) "1 +\n-nil\nexit\n(" hargs
  have hanswered : Shell.answered (Text.lines (Text.unifyNewlines "1 +\n-nil\nexit\n(".toList))
      = ["1 +", "-nil", "exit"] := by decide
  rw [hanswered] at hout
  exact ⟨hargs, hfault, herrors.trans (by decide), hdone, hout⟩

end LoxCalc
