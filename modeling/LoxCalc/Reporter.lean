import LoxCalc.Fault

/-!
# Reporting

A reporter tells the user about faults and counts their diagnostics.  A **fatal** reporter ends the
program after a report.  `Reporter.guard` is the boundary around a piece of work: it reports the
fault that ended the work, if any, and decides whether that fault goes on.

* A complaint, an interruption and too deep a nesting are reported and go no further.
* A request to end the program goes on in silence.
* A defect is reported as a problem of the interpreter and goes on.
-/

namespace LoxCalc

/-- The effect of an operation: the text it printed, the state it left, and the fault that ended it,
if any. -/
structure Outcome (σ : Type) where
  out : String
  state : σ
  fault : Option Fault

namespace Console

/-- Text between the codes that switch a style on and every style off.

Colours are **assumed to be on**: the codes are written whether or not the output is a terminal, and
no setting of the environment is asked. -/
def styled (codes s : String) : String :=
  codes ++ s ++ "\x1b[0m"

/-- Red text. -/
def red (s : String) : String :=
  styled "\x1b[31m" s

/-- Bold red text. -/
def boldRed (s : String) : String :=
  styled "\x1b[1m\x1b[31m" s

/-- Yellow text. -/
def yellow (s : String) : String :=
  styled "\x1b[33m" s

/-- A line of text with its end. -/
def line (s : String) : String :=
  s ++ "\n"

end Console

open Console

/-- Tells the user about faults. -/
structure Reporter where
  /-- Does a report end the program? -/
  fatal : Bool := true
  /-- The number of diagnostics reported. -/
  errors : Nat := 0
  /-- The file that is being worked on. -/
  path : Option String := none
  deriving DecidableEq

namespace Reporter

/-- Diagnostics in red, each on a line. -/
def report (ds : List Diagnostic) : String :=
  String.join (ds.map fun d => line (red d.render))

/-- The path and a colon, if there is a path. -/
def location (r : Reporter) : String :=
  match r.path with
  | none | some "" => ""
  | some path => path ++ ": "

/-- The text of a complaint. -/
def complaintText (r : Reporter) (c : Complaint) : String :=
  if c.isInternal then line (boldRed (r.location ++ "[internal] error: ") ++ c.message)
  else report c.diagnostics

/-- Reports a complaint, and ends the program if the reporter is fatal. -/
def throw (r : Reporter) (c : Complaint) : Outcome Reporter where
  out := r.complaintText c
  state := { r with errors := r.errors + c.diagnostics.length }
  fault := if r.fatal then some (.exit (.code 1)) else none

/-- The complaint that tells about a defect. -/
def defectComplaint (d : Defect) : Complaint :=
  .ofInternal ("unknown error: '" ++ d.label ++ ": " ++ d.message ++ "'")

/-- Deals with the end of a piece of work, which a fault may have caused. -/
def guard (r : Reporter) : Option Fault → Outcome Reporter
  | none => ⟨"", r, none⟩
  | some (.exit status) => ⟨"", r, some (.exit status)⟩
  | some (.interrupt _) => r.throw (.ofMessage "keyboard interrupt")
  | some .tooDeep => r.throw (.ofMessage "expression is nested too deeply")
  | some (.complaint c) => r.throw c
  | some (.defect d) =>
    let told := r.throw (defectComplaint d)
    { told with fault := some (told.fault.getD (.defect d)) }

end Reporter

end LoxCalc
