/-!
# Lines of a text

A line may end in a line feed, a carriage return or both.  `unifyNewlines` leaves line feeds only,
and `lines` cuts a text at them; what follows the last line feed is a line unless it is empty.
-/

namespace LoxCalc.Text

/-- Replaces every line ending by a line feed. -/
def unifyNewlines : List Char → List Char
  | [] => []
  | '\r' :: '\n' :: cs => '\n' :: unifyNewlines cs
  | c :: cs => (if c = '\r' then '\n' else c) :: unifyNewlines cs

/-- Cuts a text at line feeds, `begun` being the start of the current line in reverse. -/
def linesFrom (begun : List Char) : List Char → List String
  | [] => if begun = [] then [] else [String.ofList begun.reverse]
  | c :: cs =>
    if c = '\n' then String.ofList begun.reverse :: linesFrom [] cs
    else linesFrom (c :: begun) cs

/-- The lines of a text. -/
def lines (cs : List Char) : List String :=
  linesFrom [] cs

end LoxCalc.Text
