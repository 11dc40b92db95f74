import LoxCalc.Reporter
import Mathlib.Algebra.Order.Ring.Nat

/-!
# What a reporter counts and lets through

Blocks of work end under the guard of one reporter, with a fault or without.
Between them the reporter is made fatal or not, and told of other files.

* `Reporter.Told` gives the text by which a fault is told, and `Reporter.Ends`
  says how a block ends for whoever waits for it.
* `Reporter.state_act` says what one event does to the reporter, and
  `Reporter.after_eq` what a whole run of events does: the count grows by the
  costs of the blocks, and nothing but the events that set them changes the
  other two fields.
-/

namespace LoxCalc

open Console

/-- The number of diagnostics that a fault counts for. -/
def Fault.cost : Fault → Nat
  | complaint c => c.diagnostics.length
  | exit _ => 0
  | interrupt _ | tooDeep | defect _ => 1

namespace Reporter

/-! ## Events -/

/-- What happens to a reporter. -/
inductive Event
  /-- A block of work ends under its guard, perhaps with a fault. -/
  | block (raised : Option Fault)
  /-- It is made fatal, or not fatal any more. -/
  | setFatal (fatal : Bool)
  /-- It is told which file is being worked on. -/
  | register (path : Option String)

namespace Event

/-- The number of diagnostics that an event counts for. -/
def cost : Event → Nat
  | block raised => (raised.map Fault.cost).getD 0
  | setFatal _ | register _ => 0

/-- Whether the reporter is fatal after an event that decides this. -/
def fatal? : Event → Option Bool
  | setFatal fatal => some fatal
  | block _ | register _ => none

/-- The path after an event that decides it. -/
def path? : Event → Option (Option String)
  | register path => some path
  | block _ | setFatal _ => none

end Event

/-- Deals with an event. -/
def act (r : Reporter) : Event → Outcome Reporter
  | .block raised => r.guard raised
  | .setFatal fatal => ⟨"", { r with fatal }, none⟩
  | .register path => ⟨"", { r with path }, none⟩

/-- The outcomes of events one after the other.  A block that ends the program
may be followed by others, if somebody keeps it from ending. -/
def outcomes (r : Reporter) : List Event → List (Outcome Reporter)
  | [] => []
  | e :: es => r.act e :: (r.act e).state.outcomes es

/-- The reporter after events. -/
def after (r : Reporter) : List Event → Reporter
  | [] => r
  | e :: es => (r.act e).state.after es

/-! ## How a block ends -/

/-- The text by which a reporter tells of a fault.  The diagnostics of a complaint
come in order and in red; what is internal is marked so, after the path. -/
inductive Told (r : Reporter) : Fault → String → Prop
  | complaint {c : Complaint} (h : c.isInternal = false) :
      Told r (.complaint c) (String.join (c.diagnostics.map fun d => line (red d.render)))
  | internal {c : Complaint} (h : c.isInternal = true) :
      Told r (.complaint c) (line (boldRed (r.location ++ "[internal] error: ") ++ c.message))
  | interrupt (text : String) : Told r (.interrupt text) (line (red "keyboard interrupt"))
  | tooDeep : Told r .tooDeep (line (red "expression is nested too deeply"))
  | defect (d : Defect) :
      Told r (.defect d) (line (boldRed (r.location ++ "[internal] error: ")
        ++ ("unknown error: '" ++ d.label ++ ": " ++ d.message ++ "'")))

/-- How a block ends: the fault that was raised in it, what is printed, and the
fault that goes on from it. -/
inductive Ends (r : Reporter) : Option Fault → String → Option Fault → Prop
  | completed : Ends r none "" none
  /-- A request to end the program is nobody's business here. -/
  | exit (status : ExitStatus) : Ends r (some (.exit status)) "" (some (.exit status))
  /-- A fatal reporter ends the program. -/
  | fatal {f : Fault} {text : String} (h : r.fatal = true) (htold : Told r f text) :
      Ends r (some f) text (some (.exit (.code 1)))
  /-- Otherwise faults that are to be expected go no further. -/
  | suppressed {f : Fault} {text : String} (h : r.fatal = false) (htold : Told r f text)
      (hf : ∀ d, f ≠ .defect d) : Ends r (some f) text none
  /-- Defects go on as they are. -/
  | raised {d : Defect} {text : String} (h : r.fatal = false) (htold : Told r (.defect d) text) :
      Ends r (some (.defect d)) text (some (.defect d))

/-- A single message is printed in red on a line. -/
theorem complaintText_ofMessage (r : Reporter) (message : String) :
    r.complaintText (.ofMessage message) = line (red message) := by
  simp [complaintText, Complaint.ofMessage, report, Diagnostic.render, Diagnostic.placed]

/-- An internal message is printed after its mark. -/
theorem complaintText_ofInternal (r : Reporter) (message : String) :
    r.complaintText (.ofInternal message)
      = line (boldRed (r.location ++ "[internal] error: ") ++ message) := by
  simp [complaintText, Complaint.ofInternal, Complaint.message, Diagnostic.render,
    Diagnostic.placed]

/-- What is told is ended by a fatal reporter and suppressed by another one. -/
theorem ends_throw {r : Reporter} {f : Fault} {c : Complaint}
    (htold : Told r f (r.complaintText c)) (hf : ∀ d, f ≠ .defect d) :
    Ends r (some f) (r.throw c).out (r.throw c).fault := by
  cases h : r.fatal with
  | true => simpa [throw, h] using Ends.fatal h htold
  | false => simpa [throw, h] using Ends.suppressed h htold hf

/-- **Every block ends by the rules.** -/
theorem ends_guard (r : Reporter) (f : Option Fault) :
    Ends r f (r.guard f).out (r.guard f).fault := by
  cases f with
  | none => exact .completed
  | some f =>
      cases f with
      | exit status => exact .exit status
      | complaint c =>
          refine ends_throw ?_ (fun d => by simp)
          unfold complaintText
          cases h : c.isInternal with
          | true => simpa [h] using Told.internal h
          | false => simpa [h, report] using Told.complaint h
      | interrupt text =>
          refine ends_throw ?_ (fun d => by simp)
          rw [complaintText_ofMessage]
          exact .interrupt text
      | tooDeep =>
          refine ends_throw ?_ (fun d => by simp)
          rw [complaintText_ofMessage]
          exact .tooDeep
      | defect d =>
          have htold : Told r (.defect d) (r.complaintText (defectComplaint d)) := by
            rw [defectComplaint, complaintText_ofInternal]
            exact .defect d
          cases h : r.fatal with
          | true => simpa [guard, throw, h] using Ends.fatal h htold
          | false => simpa [guard, throw, h] using Ends.raised h htold

/-! ## Runs of events -/

/-- **What an event does to a reporter.** -/
theorem state_act (r : Reporter) (e : Event) :
    (r.act e).state =
      ⟨e.fatal?.getD r.fatal, r.errors + e.cost, e.path?.getD r.path⟩ := by
  cases e with
  | setFatal fatal => rfl
  | register path => rfl
  | block f =>
      cases f with
      | none => rfl
      | some f => cases f <;> rfl

/-- **What events do to a reporter.**  It counts their costs, and is fatal and
works on a file as it was told last. -/
theorem after_eq (r : Reporter) (es : List Event) :
    r.after es =
      ⟨(es.filterMap Event.fatal?).getLast?.getD r.fatal, r.errors + (es.map Event.cost).sum,
        (es.filterMap Event.path?).getLast?.getD r.path⟩ := by
  induction es generalizing r with
  | nil => rfl
  | cons e es ih =>
      rw [after, ih, state_act]
      cases e <;> simp [Event.fatal?, Event.path?, List.getLast?_cons, Nat.add_assoc]

/-- The events before an event are dealt with first. -/
theorem outcomes_append_cons (r : Reporter) (before : List Event) (e : Event)
    (later : List Event) :
    r.outcomes (before ++ e :: later) =
      r.outcomes before ++ (r.after before).act e
        :: ((r.after before).act e).state.outcomes later := by
  induction before generalizing r with
  | nil => rfl
  | cons e' before ih => rw [List.cons_append, outcomes, ih, outcomes, after, List.cons_append]

/-- **A reporter accounts for every block.**  After any events it has counted the
diagnostics of the complaints that it was told of, and one for each interruption,
each nesting too deep and each defect; it is fatal and works on a file as it was
told last.  Whatever happened before a block and whatever is to come, the block
ends by the rules for the reporter of that moment. -/
theorem blocks_accounted :
    (∀ (r : Reporter) (es : List Event),
      (r.after es).errors = r.errors + (es.map Event.cost).sum ∧
      (r.after es).fatal = (es.filterMap Event.fatal?).getLast?.getD r.fatal ∧
      (r.after es).path = (es.filterMap Event.path?).getLast?.getD r.path) ∧
    ∀ (r : Reporter) (before : List Event) (f : Option Fault) (later : List Event),
      ∃ o : Outcome Reporter,
        r.outcomes (before ++ .block f :: later)
          = r.outcomes before ++ o :: o.state.outcomes later ∧
        Ends (r.after before) f o.out o.fault := by
  constructor
  · intro r es
    rw [after_eq]
    exact ⟨rfl, rfl, rfl⟩
  · intro r before f later
    exact ⟨_, outcomes_append_cons r before (.block f) later, ends_guard _ f⟩

end Reporter

end LoxCalc
