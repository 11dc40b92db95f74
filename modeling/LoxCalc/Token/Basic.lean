import LoxCalc.Token.Kind

/-!
# Tokens

A token records its kind, the text it was read from, the line on which that text ends and, for a
number or a string, the text of its value.
-/

namespace LoxCalc

/-- The smallest unit of a source text. -/
structure Token where
  kind : Kind
  /-- The text of the token as it stands in the source. -/
  lexeme : String
  line : Int
  /-- The numeral of a number, or what stands between the quotes of a string. -/
  literal : Option String := none
  deriving DecidableEq

namespace Token

/-- The token that marks the end of a source text. -/
def endOfSource (line : Int) : Token :=
  ⟨.eof, "", line, none⟩

/-- Does the token mark the end of a source text? -/
def isEnd (t : Token) : Bool :=
  t.kind == .eof

/-- A token as it is listed: name, lexeme and line. -/
def render (t : Token) : String :=
  t.kind.name ++ " " ++ t.lexeme ++ " [" ++ toString t.line ++ "]"

end Token

end LoxCalc
