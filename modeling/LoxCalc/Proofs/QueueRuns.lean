import LoxCalc.Session
import Mathlib.Data.List.Forall2

/-!
# Runs of the queue

A run takes the trees of the queue in order.  It goes on as long as a tree
evaluates and, outside the shell, its value can be printed.  Two runs one after
the other do what one run over both queues does, unless the first one stops
early (`Session.evalAll_append`); so trees may be queued together or one at a
time (`Session.runEach_eq`).

Whatever stops a run, the queue is empty afterwards, and the results of the
trees before the stop are kept.
-/

namespace LoxCalc.Session

open Console

/-! ## Why a run stops -/

/-- A run stops at what is left of the queue, with the results that this still
gives and the fault that it ends with.

* Nothing is left.
* The next tree does not evaluate.
* Outside the shell, the value of the next tree is the string without a text.
  There is no way to print it, but it has become a result before. -/
inductive Stop (interactive : Bool) : List Expr → List Value → Option Fault → Prop
  | finished : Stop interactive [] [] none
  | failed {e : Expr} {f : Fault} (h : e.eval? = .error f) (later : List Expr) :
      Stop interactive (e :: later) [] (some f)
  | unprintable {e : Expr} (hmode : interactive = false) (h : e.eval? = .ok (.string none))
      (later : List Expr) :
      Stop interactive (e :: later) [.string none] (some (.defect .unprintable))

/-- What a run prints for values: nothing under the shell, and their texts line
by line outside it. -/
inductive Printed (interactive : Bool) : List Value → String → Prop
  | shell (hmode : interactive = true) (vs : List Value) : Printed interactive vs ""
  | file (hmode : interactive = false) {vs : List Value} {texts : List String}
      (h : List.Forall₂ (fun v text => v.text = .ok text) vs texts) :
      Printed interactive vs (String.join (texts.map line))

/-- Only a string without a text cannot be printed. -/
theorem text_eq_error_iff {v : Value} {d : Defect} :
    v.text = .error d ↔ v = .string none ∧ d = .unprintable := by
  cases v with
  | string s => cases s <;> simp [Value.text, eq_comm]
  | _ => simp [Value.text]

namespace Printed

variable {interactive : Bool} {v : Value} {vs : List Value} {printed out : String}

theorem nil : Printed interactive [] "" := by
  cases interactive with
  | true => exact .shell rfl []
  | false => exact .file rfl .nil

/-- A value that is announced is printed before those that follow it. -/
theorem cons (hv : announce interactive v = .ok printed) (h : Printed interactive vs out) :
    Printed interactive (v :: vs) (printed ++ out) := by
  cases h with
  | shell hmode =>
      subst hmode
      obtain rfl : "" = printed := Except.ok.inj hv
      exact .shell rfl (v :: vs)
  | @file hmode _ texts htexts =>
      subst hmode
      cases htext : v.text with
      | error d => simp [announce, htext, Except.map] at hv
      | ok text =>
          obtain rfl : line text = printed := by
            simpa [announce, htext, Except.map] using hv
          have hprinted : Printed false (v :: vs) (String.join ((text :: texts).map line)) :=
            .file rfl (.cons htext htexts)
          simpa using hprinted

/-- Values that can be printed are announced one by one. -/
theorem uncons (h : Printed interactive (v :: vs) out) :
    ∃ printed later, announce interactive v = .ok printed ∧ Printed interactive vs later ∧
      out = printed ++ later := by
  cases h with
  | shell hmode =>
      subst hmode
      exact ⟨"", "", rfl, .shell rfl vs, rfl⟩
  | file hmode htexts =>
      subst hmode
      cases htexts with
      | @cons _ text _ texts htext htexts =>
          refine ⟨line text, String.join (texts.map line), ?_, .file rfl htexts, by simp⟩
          simp [announce, htext, Except.map]

end Printed

/-! ## Runs -/

/-- A run over two queues is a run over the first one and, unless that stops
early, one over the second. -/
theorem evalAll_append (interactive : Bool) (es fs : List Expr) :
    evalAll interactive (es ++ fs) =
      match (evalAll interactive es).fault with
      | some _ => evalAll interactive es
      | none =>
        ⟨(evalAll interactive es).out ++ (evalAll interactive fs).out,
          (evalAll interactive es).state ++ (evalAll interactive fs).state,
          (evalAll interactive fs).fault⟩ := by
  induction es with
  | nil => simp [evalAll]
  | cons e es ih =>
      cases he : e.eval? with
      | error f => simp [evalAll, he]
      | ok v =>
          cases hv : announce interactive v with
          | error d => simp [evalAll, he, hv]
          | ok printed =>
              simp only [List.cons_append, evalAll, he, hv, ih]
              cases hfault : (evalAll interactive es).fault with
              | some f => simp [hfault]
              | none => simp [String.append_assoc]

/-- **Trees that evaluate to values which can be printed give these values**, and
nothing stops the run among them. -/
theorem evalAll_of_forall₂ {interactive : Bool} {es : List Expr} {vs : List Value} {out : String}
    (h : List.Forall₂ (fun e v => e.eval? = .ok v) es vs) (hprinted : Printed interactive vs out) :
    evalAll interactive es = ⟨out, vs, none⟩ := by
  induction h generalizing out with
  | nil =>
      cases hprinted with
      | shell => rfl
      | file _ htexts => cases htexts; rfl
  | cons he hes ih =>
      obtain ⟨printed, later, hannounce, hlater, rfl⟩ := hprinted.uncons
      simp [evalAll, he, hannounce, ih hlater]

/-- What is evaluated where a run stops. -/
theorem Stop.evalAll_eq {interactive : Bool} {rest : List Expr} {last : List Value}
    {fault : Option Fault} (h : Stop interactive rest last fault) :
    evalAll interactive rest = ⟨"", last, fault⟩ := by
  cases h with
  | finished => rfl
  | failed h => simp [evalAll, h]
  | unprintable hmode h =>
      subst hmode
      simp [evalAll, h, announce, Value.text, Except.map]

/-- Every queue is run up to some place and no further. -/
theorem exists_stop (interactive : Bool) (queue : List Expr) :
    ∃ done rest vs last out fault, queue = done ++ rest ∧
      List.Forall₂ (fun e v => e.eval? = .ok v) done vs ∧ Printed interactive vs out ∧
      Stop interactive rest last fault := by
  induction queue with
  | nil => exact ⟨[], [], [], [], "", none, rfl, .nil, .nil, .finished⟩
  | cons e queue ih =>
      cases he : e.eval? with
      | error f => exact ⟨[], _, [], [], "", _, rfl, .nil, .nil, .failed he queue⟩
      | ok v =>
          cases hannounce : announce interactive v with
          | ok printed =>
              obtain ⟨done, rest, vs, last, out, fault, rfl, hdone, hout, hstop⟩ := ih
              exact ⟨e :: done, rest, v :: vs, last, printed ++ out, fault, rfl, .cons he hdone,
                hout.cons hannounce, hstop⟩
          | error d =>
              -- only a value that is to be printed can be in the way
              cases hmode : interactive with
              | true => simp [announce, hmode] at hannounce
              | false =>
                  have htext : v.text = .error d := by
                    cases htext : v.text <;> simp_all [announce, Except.map]
                  obtain ⟨rfl, -⟩ := text_eq_error_iff.mp htext
                  exact ⟨[], _, [], _, "", _, rfl, .nil, .nil, .unprintable rfl he queue⟩

/-! ## One tree at a time -/

/-- Queues and runs trees one after the other. -/
def runEach (s : Session) : List Expr → Outcome Session
  | [] => ⟨"", s, none⟩
  | e :: es =>
    let first := ({ s with queue := s.queue ++ [e] } : Session).run
    let later := first.state.runEach es
    ⟨first.out ++ later.out, later.state, first.fault <|> later.fault⟩

/-- **Trees that evaluate to values which can be printed may be run one at a
time.** -/
theorem runEach_eq {s : Session} (hidle : s.queue = []) {es : List Expr} {vs : List Value}
    {out : String} (h : List.Forall₂ (fun e v => e.eval? = .ok v) es vs)
    (hprinted : Printed s.interactive vs out) :
    s.runEach es = ⟨out, { s with results := s.results ++ vs }, none⟩ := by
  induction h generalizing s out with
  | nil =>
      have hnone := evalAll_of_forall₂ .nil hprinted
      obtain rfl : "" = out := congrArg Outcome.out hnone
      simp [runEach]
  | @cons e v es vs he hes ih =>
      obtain ⟨printed, later, hannounce, hlater, rfl⟩ := hprinted.uncons
      have hfirst : ({ s with queue := s.queue ++ [e] } : Session).run
          = ⟨printed, { s with results := s.results ++ [v] }, none⟩ := by
        simp [run, hidle, evalAll, he, hannounce]
      have hrest : ({ s with results := s.results ++ [v] } : Session).runEach es
          = ⟨later, { s with results := s.results ++ [v] ++ vs }, none⟩ :=
        ih (s := { s with results := s.results ++ [v] }) hidle hlater
      simp [runEach, hfirst, hrest]

/-! ## The queue -/

/-- **A run evaluates the queue in order up to the first failure and leaves no
work behind.**  The results grow by the values of the trees before the place
where the run stops; outside the shell these are printed in order.  And trees
that evaluate, to values that can be printed where they have to be, may as well
be run one at a time. -/
theorem run_stops_at_first_failure :
    (∀ s : Session, ∃ done rest vs last out fault, s.queue = done ++ rest ∧
      List.Forall₂ (fun e v => e.eval? = .ok v) done vs ∧ Printed s.interactive vs out ∧
      Stop s.interactive rest last fault ∧
      s.run = ⟨out, { s with queue := [], results := s.results ++ (vs ++ last) }, fault⟩) ∧
    ∀ (s : Session) (es : List Expr) (vs : List Value) (out : String), s.queue = [] →
      List.Forall₂ (fun e v => e.eval? = .ok v) es vs → Printed s.interactive vs out →
      ({ s with queue := es } : Session).run
          = ⟨out, { s with results := s.results ++ vs }, none⟩ ∧
        s.runEach es = ({ s with queue := es } : Session).run := by
  constructor
  · intro s
    obtain ⟨done, rest, vs, last, out, fault, hqueue, hdone, hout, hstop⟩ :=
      exists_stop s.interactive s.queue
    refine ⟨done, rest, vs, last, out, fault, hqueue, hdone, hout, hstop, ?_⟩
    have hall : evalAll s.interactive s.queue = ⟨out, vs ++ last, fault⟩ := by
      rw [hqueue, evalAll_append, evalAll_of_forall₂ hdone hout, hstop.evalAll_eq]
      simp
    simp only [run, hall]
  · intro s es vs out hidle hes hprinted
    have hrun : ({ s with queue := es } : Session).run
        = ⟨out, { s with results := s.results ++ vs }, none⟩ := by
      simp only [run, evalAll_of_forall₂ hes hprinted, ← hidle]
    exact ⟨hrun, by rw [hrun, runEach_eq hidle hes hprinted]⟩

/-- A session outside the shell that has a result already. -/
def afterNil : Session where
  interactive := false
  showTokens := false
  results := [.nil]

/-- A string and a truth value, queued together or one at a time. -/
theorem run_stops_at_first_failure_pair :
    let es : List Expr := [.literal .string (some "a"), .literal (.keyword .trueWord) none]
    let whole : Outcome Session :=
      ⟨"a\ntrue\n", { afterNil with results := [.nil, .string (some "a"), .bool true] }, none⟩
    afterNil.queue = [] ∧
      List.Forall₂ (fun e v => e.eval? = .ok v) es [.string (some "a"), .bool true] ∧
      ({ afterNil with queue := es } : Session).run = whole ∧ afterNil.runEach es = whole := by
  intro es whole
  have hes : List.Forall₂ (fun e v => e.eval? = .ok v) es [.string (some "a"), .bool true] :=
    .cons rfl (.cons rfl .nil)
  have htexts : List.Forall₂ (fun v text => Value.text v = .ok text)
      [.string (some "a"), .bool true] ["a", "true"] := .cons rfl (.cons rfl .nil)
  have hprinted : Printed afterNil.interactive _ (String.join (["a", "true"].map line)) :=
    .file rfl htexts
  have hout : String.join (["a", "true"].map line) = "a\ntrue\n" := by decide
  rw [hout] at hprinted
  obtain ⟨hrun, heach⟩ := run_stops_at_first_failure.2 afterNil es _ _ rfl hes hprinted
  exact ⟨rfl, hes, hrun, heach.trans hrun⟩

/-- A string without a text evaluates, and so does the tree after it; but printing
the string fails, and the second tree is dropped. -/
theorem run_stops_at_textless_string :
    let s : Session :=
      { afterNil with queue := [.literal .string none, .literal (.keyword .trueWord) none] }
    List.Forall₂ (fun e v => e.eval? = .ok v) s.queue [.string none, .bool true] ∧
      s.run.fault = some (.defect .unprintable) ∧
      s.run.state.results = [.nil, .string none] ∧
      s.run.state.results ≠ s.results ++ [.string none, .bool true] := by
  intro s
  have hresults : s.run.state.results = [.nil, .string none] := rfl
  refine ⟨.cons rfl (.cons rfl .nil), rfl, hresults, ?_⟩
  rw [hresults]
  simp [s, afterNil]

end LoxCalc.Session
