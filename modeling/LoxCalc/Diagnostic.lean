import LoxCalc.Text.Quoted
import LoxCalc.Token.Basic

/-!
# Diagnostics

A diagnostic is a message, with the token it is about and the line it is on where these are known.
A diagnostic about a token is on that token's line unless another line is given.
-/

namespace LoxCalc

/-- A single problem, as it is told to the user. -/
structure Diagnostic where
  message : String
  token : Option Token := none
  line : Option Int := none
  deriving DecidableEq

namespace Diagnostic

/-- A diagnostic whose line is that of its token where none is given. -/
def make (message : String) (token : Option Token) (line : Option Int) : Diagnostic :=
  ⟨message, token, line <|> token.map Token.line⟩

/-- A diagnostic about a token. -/
def about (t : Token) (message : String) : Diagnostic :=
  ⟨message, some t, some t.line⟩

/-- A diagnostic about a line. -/
def onLine (line : Int) (message : String) : Diagnostic :=
  ⟨message, none, some line⟩

/-- The message, after the token it is about. -/
def placed (d : Diagnostic) : String :=
  match d.token with
  | none => d.message
  | some t =>
    if t.isEnd then "at end - " ++ d.message else "at '" ++ t.lexeme ++ "' - " ++ d.message

/-- The text of a diagnostic: line, token and message. -/
def render (d : Diagnostic) : String :=
  match d.line with
  | none => d.placed
  | some n => toString n ++ ": " ++ d.placed

/-- A list of diagnostics on one line, each as its quoted text. -/
def listText (ds : List Diagnostic) : String :=
  "DiagnosticList(["
    ++ String.intercalate ", " (ds.map fun d => "Diagnostic(" ++ Text.quoted d.render ++ ")")
    ++ "])"

/-- The diagnostic at an index; negative indexes count from the end. -/
def at? (ds : List Diagnostic) (i : Int) : Option Diagnostic :=
  if 0 ≤ i then ds[i.toNat]?
  else if 0 ≤ i + ds.length then ds[(i + ds.length).toNat]?
  else none

end Diagnostic

end LoxCalc
