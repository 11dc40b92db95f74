import LoxCalc.Session
import LoxCalc.Text.Blank

/-!
# The shell

The shell answers one line at a time.  Blanks around a line are ignored.  A line that begins with
one of the words `help`, `exit` and `EOF` is a command, whatever follows the word, and a question
mark asks for help as well; every other line is an expression.  A fault in one line never ends the
shell.
-/

namespace LoxCalc

open Console

namespace Shell

/-- What the shell prints when it starts. -/
def intro : String :=
  "Lox expression interpreter :: Python backend\nType 'help' for more information, ^D to end."

/-- What the shell prints before it reads a line. -/
def prompt : String := "> "

/-- The answer to a request for help. -/
def helpText : String :=
  "Welcome to the Lox expression interpreter!\n\n"
    ++ "Type an expression made of numbers, strings, true, false, nil, parentheses and \n"
    ++ "the operators ! - + * / == != < <= > >=. The interpreter prints the parsed \n"
    ++ "tree, then its value. Try '-1 * (2 + 3)' or '\"lo\" + \"x\"'."

/-- What a line asks for. -/
inductive Command
  | nothing
  | help
  | exit
  | endOfInput
  | expression (source : String)
  deriving DecidableEq

/-- The command word at the beginning of a line decides what the line asks for. -/
def commandOf (cs : List Char) : Command :=
  let word := String.ofList (cs.takeWhile isWordChar)
  if word = "help" then .help
  else if word = "EOF" then .endOfInput
  else if word = "exit" then .exit
  else .expression (String.ofList cs)

/-- Spells out the short form of the request for help. -/
def expandHelp : List Char → List Char
  | '?' :: cs => "help ".toList ++ cs
  | cs => cs

/-- What a line asks for, and the line to be remembered as the last command, if it is one. -/
def parseLine (source : String) : Command × Option String :=
  match Text.strip Text.isBlank source.toList with
  | [] => (.nothing, none)
  | '!' :: cs => (.expression (String.ofList ('!' :: cs)), none)
  | cs =>
    let full := expandHelp cs
    (commandOf full, some (if String.ofList full = "EOF" then "" else String.ofList full))

end Shell

/-- A shell over a session. -/
structure Shell where
  session : Session
  reporter : Reporter
  lastCommand : String := ""

namespace Shell

/-- A new shell. -/
def fresh (showTokens : Bool) : Shell where
  session := { interactive := true, showTokens }
  reporter := Session.reporterFor {} Session.shellPath true

/-- What a line does: what it prints, the shell it leaves, whether it ends the shell, and a fault
that the reporter let pass. -/
structure Reply where
  out : String
  shell : Shell
  stop : Bool
  fault : Option Fault

/-- Answers an expression under the guard of the reporter. -/
def evaluate (sh : Shell) (source : String) : Reply :=
  let answered := sh.session.answer source
  let guarded := sh.reporter.guard answered.fault
  { out := answered.out ++ guarded.out
    shell := { sh with session := answered.state, reporter := guarded.state }
    stop := false
    fault := guarded.fault }

/-- Carries out a command. -/
def perform (sh : Shell) : Command → Reply
  | .nothing => ⟨"", sh, false, none⟩
  | .help => ⟨line helpText, sh, false, none⟩
  | .exit => ⟨"", sh, true, none⟩
  | .endOfInput => ⟨line "", sh, true, none⟩
  | .expression source => sh.evaluate source

/-- Answers a line. -/
def reply (sh : Shell) (source : String) : Reply :=
  let (command, remembered) := parseLine source
  perform { sh with lastCommand := remembered.getD sh.lastCommand } command

/-- Answers lines up to the first one that ends the shell; the end of the input acts as the line
`EOF`. -/
def converse (sh : Shell) : List String → Outcome Shell
  | [] =>
    let r := sh.reply "EOF"
    ⟨prompt ++ r.out, r.shell, r.fault⟩
  | source :: rest =>
    let r := sh.reply source
    if r.stop || r.fault.isSome then ⟨prompt ++ r.out, r.shell, r.fault⟩
    else
      let later := converse r.shell rest
      ⟨prompt ++ r.out ++ later.out, later.state, later.fault⟩

end Shell

end LoxCalc
