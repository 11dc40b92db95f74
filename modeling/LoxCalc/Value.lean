import LoxCalc.Fault
import LoxCalc.Number.Print

/-!
# Values

The values of expressions: nil, booleans, binary64 numbers and strings.  There is no conversion
between them; an operator that needs a number or a boolean complains about anything else.

A string literal of a source text always has a text, but a tree may be built with one that has none.
Its value is a string as well.  It equals only another string without text, and it can be neither
printed nor joined.
-/

namespace LoxCalc

/-- The value of an expression. -/
inductive Value
  | nil
  | bool (b : Bool)
  | number (x : Float)
  /-- A string, which has a text unless its literal has none. -/
  | string (text : Option String)

namespace Value

/-- The name of a value's type. -/
def typeName : Value → String
  | nil => "nil"
  | bool _ => "bool"
  | number _ => "number"
  | string _ => "string"

/-- A value as the interpreter prints it. -/
def text : Value → Except Defect String
  | nil => .ok "nil"
  | bool b => .ok (if b then "true" else "false")
  | number x => .ok (Number.text x)
  | string (some s) => .ok s
  | string none => .error .unprintable

/-- The equality of the language: values of different types differ, numbers are compared as
numbers, so that nothing equals a NaN. -/
def isEqual : Value → Value → Bool
  | nil, nil => true
  | bool a, bool b => a == b
  | number x, number y => x == y
  | string s, string t => s == t
  | _, _ => false

/-- The complaint about a type that an operator does not take. -/
def typeError (op : Token) (message : String) : Fault :=
  .complaint ⟨.evaluation, [.about op message], false⟩

/-- The number that an operator needs. -/
def asNumber (op : Token) : Value → Except Fault Float
  | number x => .ok x
  | v => .error (typeError op ("Expected number but found " ++ v.typeName))

/-- The boolean that an operator needs. -/
def asBool (op : Token) : Value → Except Fault Bool
  | bool b => .ok b
  | v => .error (typeError op ("Expected bool but found " ++ v.typeName))

/-- The two numbers that an operator needs; the left operand is looked at first. -/
def asNumbers (op : Token) (a b : Value) : Except Fault (Float × Float) := do
  let x ← a.asNumber op
  let y ← b.asNumber op
  return (x, y)

end Value

end LoxCalc
