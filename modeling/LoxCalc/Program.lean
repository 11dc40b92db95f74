import LoxCalc.CommandLine
import LoxCalc.Shell

/-!
# The program

A run of the whole program: what it prints on the two channels and the fault that ends it, if any,
as a function of its arguments, the files within reach and its input.  All work is done under the
guard of one reporter, which is fatal unless the shell runs.
-/

namespace LoxCalc.Program

open Console

/-- The first line of every explanation. -/
def usage : String :=
  "usage: lox [-h] [--tokens] [file]\n"

/-- The explanation of the arguments. -/
def helpText : String :=
  usage ++ "\npositional arguments:\n"
    ++ "  file        file to interpret and run (if empty, goes to command-line mode)\n"
    ++ "\noptions:\n"
    ++ "  -h, --help  show this help message and exit\n"
    ++ "  --tokens    print scanned tokens and the parsed tree before evaluating\n"

/-- What a run printed, and the fault that ended it. -/
structure Run where
  out : String
  err : String := ""
  fault : Option Fault := none

/-- Ends a piece of work under the guard of a reporter. -/
def guarded (r : Reporter) (out : String) (fault : Option Fault) : Run :=
  let told := r.guard fault
  { out := out ++ told.out, fault := told.fault }

/-- What the work on a file prints, and the fault that comes up, before the reporter takes over. -/
def work (files : Session.Files) (path : String) (showTokens : Bool) : String × Option Fault :=
  let opened := Session.openOn files path false showTokens
  match opened.state with
  | none => (opened.out, opened.fault)
  | some s =>
    let ran := s.run
    (opened.out ++ ran.out, ran.fault)

/-- Runs a file. -/
def runFile (files : Session.Files) (path : String) (showTokens : Bool) : Run :=
  let done := work files path showTokens
  guarded (Session.reporterFor {} path false) done.1 done.2

/-- Runs the shell on an input. -/
def runShell (input : String) (showTokens : Bool) : Run :=
  let talk :=
    (Shell.fresh showTokens).converse (Text.lines (Text.unifyNewlines input.toList))
  guarded talk.state.reporter (line Shell.intro ++ talk.out) talk.fault

/-- Runs the program. -/
def run (args : List String) (files : Session.Files) (input : String) : Run :=
  match Request.ofArguments args with
  | .help => { out := helpText, fault := some (.exit (.code 0)) }
  | .reject reason =>
    { out := "", err := usage ++ line ("lox: error: " ++ reason), fault := some (.exit (.code 2)) }
  | .run (some path) showTokens => runFile files path showTokens
  | .run none showTokens => runShell input showTokens

end LoxCalc.Program
