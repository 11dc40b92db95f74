import LoxCalc.Program

/-!
# Running from the command line

Reading files and lines, printing, and the exit status.  What is printed is decided elsewhere.
-/

namespace LoxCalc

/-- The octets of a file, if it can be opened. -/
def readOctets (path : String) : IO (Option (List UInt8)) := do
  try
    return some (← IO.FS.readBinFile path).toList
  catch _ => return none

/-- Prints what a run printed and gives the exit status. -/
def deliver (r : Program.Run) : IO UInt32 := do
  IO.print r.out
  IO.eprint r.err
  match r.fault with
  | none | some (.exit .unspecified) => return 0
  | some (.exit (.code n)) => return UInt32.ofNat n.toNat
  | some (.exit (.message s)) =>
    IO.eprintln s
    return 1
  | some _ => return 1

/-- Answers lines of the input until one of them ends the shell. -/
partial def talk (input output : IO.FS.Stream) (sh : Shell) : IO Unit := do
  output.putStr Shell.prompt
  output.flush
  let source ← input.getLine
  let reply :=
    if source.isEmpty then sh.reply "EOF"
    else sh.reply ((Text.lines (Text.unifyNewlines source.toList)).headD "")
  output.putStr reply.out
  output.flush
  unless reply.stop do talk input output reply.shell

end LoxCalc

open LoxCalc

/-- Runs the program. -/
def main (args : List String) : IO UInt32 := do
  match Request.ofArguments args with
  | .run (some path) _ =>
    let octets ← readOctets path
    deliver (Program.run args (fun _ => octets) "")
  | .run none showTokens =>
    IO.println Shell.intro
    talk (← IO.getStdin) (← IO.getStdout) (Shell.fresh showTokens)
    return 0
  | _ => deliver (Program.run args (fun _ => none) "")
