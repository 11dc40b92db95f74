import LoxCalc.Expr.Dump
import LoxCalc.Expr.Eval
import LoxCalc.Expr.Parser
import LoxCalc.Reporter
import LoxCalc.Source.Scan
import LoxCalc.Text.Lines

/-!
# Sessions

A session takes source texts, queues their expressions and evaluates the queue.  Nothing carries
over from one expression to the next.

* `Session.add` scans and parses a text, shows its tree and queues it, or complains and queues
  nothing;
* `Session.run` evaluates the queue in order up to the first failure and leaves it empty; outside
  the shell it prints every value as soon as it is known;
* `Session.pop` takes the latest result;
* `Session.openOn` opens a session on a file or for the shell.
-/

namespace LoxCalc

open Console

/-- The expression of a scanned text; scanning and parsing problems are reported together. -/
def Scan.expr (s : Scan) : Except Fault Expr := do
  let p ← (Parser.ofTokens s.tokens).mapError .defect
  let (e?, p) ← p.parse?
  match e?, s.errors with
  | some e, [] => return e
  | _, _ => .error (.complaint ⟨.parsing, s.errors ++ p.errors, false⟩)

/-- A run of the interpreter over one or more source texts. -/
structure Session where
  /-- Is the session run by the shell, which prints the results itself? -/
  interactive : Bool
  /-- Are tokens and tree dumps shown? -/
  showTokens : Bool
  /-- The expressions that wait to be evaluated. -/
  queue : List Expr := []
  /-- The values that have not been taken, latest last. -/
  results : List Value := []

namespace Session

/-- The name of a session that is run by the shell. -/
def shellPath : String := "<in>"

/-- The listing of tokens, if it is wanted. -/
def listing (s : Session) (ts : List Token) : String :=
  if s.showTokens then String.join (ts.map fun t => line t.render) else ""

/-- The tree dump, if it is wanted. -/
def dumping (s : Session) (e : Expr) : Except Fault String :=
  if s.showTokens then (e.dump? 0).map line else .ok ""

/-- Scans and parses a source text, shows it and queues its expression. -/
def add (s : Session) (source : String) : Outcome Session :=
  let scanned := scan source
  let tokens := s.listing scanned.tokens
  match scanned.expr with
  | .error f => ⟨tokens, s, some f⟩
  | .ok e =>
    match s.dumping e with
    | .error f => ⟨tokens, s, some f⟩
    | .ok tree =>
      match e.echo? with
      | .error f => ⟨tokens ++ tree, s, some f⟩
      | .ok echoed =>
        ⟨tokens ++ tree ++ line (yellow echoed), { s with queue := s.queue ++ [e] }, none⟩

/-- What is printed for a value as soon as it is known: nothing under the shell. -/
def announce (interactive : Bool) (v : Value) : Except Defect String :=
  if interactive then .ok "" else v.text.map line

/-- The values of expressions up to the first failure, with what is printed for them.  A value that
cannot be printed is the last one. -/
def evalAll (interactive : Bool) : List Expr → Outcome (List Value)
  | [] => ⟨"", [], none⟩
  | e :: rest =>
    match e.eval? with
    | .error f => ⟨"", [], some f⟩
    | .ok v =>
      match announce interactive v with
      | .error d => ⟨"", [v], some (.defect d)⟩
      | .ok printed =>
        let later := evalAll interactive rest
        ⟨printed ++ later.out, v :: later.state, later.fault⟩

/-- Evaluates the queue. -/
def run (s : Session) : Outcome Session :=
  let done := evalAll s.interactive s.queue
  ⟨done.out, { s with queue := [], results := s.results ++ done.state }, done.fault⟩

/-- Takes the latest result. -/
def pop (s : Session) : Except Defect (Value × Session) :=
  match s.results.getLast? with
  | some v => .ok (v, { s with results := s.results.dropLast })
  | none => .error .nothingToPop

/-- Adds a source text, evaluates it and prints the latest result. -/
def answer (s : Session) (source : String) : Outcome Session :=
  let added := s.add source
  match added.fault with
  | some f => ⟨added.out, added.state, some f⟩
  | none =>
    let ran := added.state.run
    match ran.fault with
    | some f => ⟨added.out ++ ran.out, ran.state, some f⟩
    | none =>
      match ran.state.pop with
      | .error _ => ⟨added.out ++ ran.out, ran.state, none⟩
      | .ok (v, s) =>
        match v.text with
        | .error d => ⟨added.out ++ ran.out, s, some (.defect d)⟩
        | .ok text => ⟨added.out ++ ran.out ++ line text, s, none⟩

/-- The octets of the files that can be opened. -/
abbrev Files := String → Option (List UInt8)

/-- The text of a file. -/
def readFile (files : Files) (path : String) : Except Fault String :=
  if '\x00' ∈ path.toList then .error (.defect .nulInPath)
  else match files path with
    | none => .error (.complaint (.ofMessage ("'" ++ path ++ "' could not be opened")))
    | some octets =>
      match Text.Utf8.decode octets with
      | .error m => .error (.defect (.undecodable m))
      | .ok cs => .ok (String.ofList (Text.unifyNewlines cs))

/-- Opens a session on a file, whose text is added at once, or for the shell, which alone may use
its own name as the path.  There is no session if that fails. -/
def openOn (files : Files) (path : String) (interactive showTokens : Bool) :
    Outcome (Option Session) :=
  let s : Session := { interactive, showTokens }
  if path = shellPath then
    if interactive then ⟨"", some s, none⟩
    else ⟨"", none,
      some (.complaint (.ofMessage ("'" ++ shellPath ++ "' is a reserved filename")))⟩
  else match readFile files path with
    | .error f => ⟨"", none, some f⟩
    | .ok source =>
      let added := s.add source
      ⟨added.out, if added.fault.isNone then some added.state else none, added.fault⟩

/-- The reporter of a session: it knows the path, and is not fatal under the shell. -/
def reporterFor (r : Reporter) (path : String) (interactive : Bool) : Reporter :=
  { r with path := some path, fatal := r.fatal && !interactive }

end Session

end LoxCalc
