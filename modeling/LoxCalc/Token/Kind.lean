/-!
# Kinds of token

The vocabulary of Lox: punctuation and operators (`Symbol`), reserved words (`Keyword`), and the
kinds of token built from them (`Kind`).  A kind has a **name**, used when a token is listed, and a
**text**: the spelling of a symbol or keyword, or a descriptive word for a kind that has no fixed
spelling.

Both tables are read backwards by searching the list of all members, so that

* `Symbol.ofChars?` is the inverse of `Symbol.text`, and
* `Keyword.ofText?` is the inverse of `Keyword.text`.
-/

namespace LoxCalc

/-- Punctuation and operators. -/
inductive Symbol
  | leftParen
  | rightParen
  | leftBrace
  | rightBrace
  | comma
  | dot
  | minus
  | plus
  | semicolon
  | slash
  | star
  | bang
  | bangEqual
  | equal
  | equalEqual
  | greater
  | greaterEqual
  | less
  | lessEqual
  deriving DecidableEq

namespace Symbol

/-- Every symbol, in the order of the token table. -/
def all : List Symbol :=
  [leftParen, rightParen, leftBrace, rightBrace, comma, dot, minus, plus, semicolon, slash, star,
    bang, bangEqual, equal, equalEqual, greater, greaterEqual, less, lessEqual]

/-- The spelling of a symbol. -/
def text : Symbol → String
  | leftParen => "("
  | rightParen => ")"
  | leftBrace => "\x7b"
  | rightBrace => "\x7d"
  | comma => ","
  | dot => "."
  | minus => "-"
  | plus => "+"
  | semicolon => ";"
  | slash => "/"
  | star => "*"
  | bang => "!"
  | bangEqual => "!="
  | equal => "="
  | equalEqual => "=="
  | greater => ">"
  | greaterEqual => ">="
  | less => "<"
  | lessEqual => "<="

/-- The name under which a symbol is listed. -/
def name : Symbol → String
  | leftParen => "LEFT_PAREN"
  | rightParen => "RIGHT_PAREN"
  | leftBrace => "LEFT_BRACE"
  | rightBrace => "RIGHT_BRACE"
  | comma => "COMMA"
  | dot => "DOT"
  | minus => "MINUS"
  | plus => "PLUS"
  | semicolon => "SEMICOLON"
  | slash => "SLASH"
  | star => "STAR"
  | bang => "BANG"
  | bangEqual => "BANG_EQUAL"
  | equal => "EQUAL"
  | equalEqual => "EQUAL_EQUAL"
  | greater => "GREATER"
  | greaterEqual => "GREATER_EQUAL"
  | less => "LESS"
  | lessEqual => "LESS_EQUAL"

/-- The symbol spelled by a sequence of characters. -/
def ofChars? (cs : List Char) : Option Symbol :=
  all.find? fun s => s.text.toList == cs

/-- Every symbol is listed. -/
theorem mem_all (s : Symbol) : s ∈ all := by
  cases s <;> decide

/-- A symbol is found under its spelling. -/
theorem ofChars?_text (s : Symbol) : ofChars? s.text.toList = some s := by
  cases s <;> decide

/-- Symbols are told apart by their spellings. -/
theorem text_injective {s s' : Symbol} (h : s.text.toList = s'.text.toList) : s = s' := by
  have hfound := ofChars?_text s
  rw [h, ofChars?_text s'] at hfound
  exact (Option.some.inj hfound).symm

end Symbol

/-- Reserved words. -/
inductive Keyword
  | andWord
  | classWord
  | elseWord
  | falseWord
  | funWord
  | forWord
  | ifWord
  | nilWord
  | orWord
  | printWord
  | returnWord
  | superWord
  | thisWord
  | trueWord
  | varWord
  | whileWord
  deriving DecidableEq

namespace Keyword

/-- Every keyword, in the order of the token table. -/
def all : List Keyword :=
  [andWord, classWord, elseWord, falseWord, funWord, forWord, ifWord, nilWord, orWord, printWord,
    returnWord, superWord, thisWord, trueWord, varWord, whileWord]

/-- The spelling of a keyword. -/
def text : Keyword → String
  | andWord => "and"
  | classWord => "class"
  | elseWord => "else"
  | falseWord => "false"
  | funWord => "fun"
  | forWord => "for"
  | ifWord => "if"
  | nilWord => "nil"
  | orWord => "or"
  | printWord => "print"
  | returnWord => "return"
  | superWord => "super"
  | thisWord => "this"
  | trueWord => "true"
  | varWord => "var"
  | whileWord => "while"

/-- The name under which a keyword is listed. -/
def name : Keyword → String
  | andWord => "AND"
  | classWord => "CLASS"
  | elseWord => "ELSE"
  | falseWord => "FALSE"
  | funWord => "FUN"
  | forWord => "FOR"
  | ifWord => "IF"
  | nilWord => "NIL"
  | orWord => "OR"
  | printWord => "PRINT"
  | returnWord => "RETURN"
  | superWord => "SUPER"
  | thisWord => "THIS"
  | trueWord => "TRUE"
  | varWord => "VAR"
  | whileWord => "WHILE"

/-- The keyword spelled by a text; `none` for an ordinary identifier. -/
def ofText? (s : String) : Option Keyword :=
  all.find? fun k => k.text == s

/-- Every keyword is listed. -/
theorem mem_all (k : Keyword) : k ∈ all := by
  cases k <;> decide

/-- A keyword is found under its spelling. -/
theorem ofText?_text (k : Keyword) : ofText? k.text = some k := by
  cases k <;> decide

/-- Keywords are told apart by their spellings. -/
theorem text_injective {k k' : Keyword} (h : k.text = k'.text) : k = k' := by
  have hfound := ofText?_text k
  rw [h, ofText?_text k'] at hfound
  exact (Option.some.inj hfound).symm

/-- Does a statement begin with this keyword? -/
def startsStatement : Keyword → Bool
  | classWord | funWord | varWord | forWord | ifWord | whileWord | printWord | returnWord => true
  | _ => false

end Keyword

/-- The kind of a token.  `error` never comes from a source text: it marks the place of an
expression that is missing. -/
inductive Kind
  | symbol (s : Symbol)
  | identifier
  | string
  | number
  | keyword (k : Keyword)
  | eof
  | error
  deriving DecidableEq

namespace Kind

/-- Every kind, in the order of the token table. -/
def all : List Kind :=
  Symbol.all.map symbol ++ [identifier, string, number] ++ Keyword.all.map keyword ++ [eof, error]

/-- The kinds whose tokens are spelled freely. -/
def literals : List Kind :=
  [identifier, string, number]

/-- The spelling of a kind, or a descriptive word where there is no fixed spelling. -/
def text : Kind → String
  | symbol s => s.text
  | identifier => "identifier"
  | string => "string"
  | number => "number"
  | keyword k => k.text
  | eof => "eof"
  | error => "error"

/-- The name under which a kind is listed. -/
def name : Kind → String
  | symbol s => s.name
  | identifier => "IDENTIFIER"
  | string => "STRING"
  | number => "NUMBER"
  | keyword k => k.name
  | eof => "EOF"
  | error => "ERROR"

/-- The kind whose text is `s`. -/
def ofText? (s : String) : Option Kind :=
  all.find? fun k => k.text == s

/-- The kind whose name is `s`. -/
def ofName? (s : String) : Option Kind :=
  all.find? fun k => k.name == s

/-- Does a statement begin with a token of this kind? -/
def startsStatement : Kind → Bool
  | keyword k => k.startsStatement
  | _ => false

/-- Every kind is listed. -/
theorem mem_all (k : Kind) : k ∈ all := by
  cases k with
  | symbol s => simp [all, Symbol.mem_all]
  | keyword k => simp [all, Keyword.mem_all]
  | _ => simp [all]

/-- A kind is found under its name. -/
theorem ofName?_name (k : Kind) : ofName? k.name = some k := by
  cases k with
  | symbol s => cases s <;> decide
  | keyword k => cases k <;> decide
  | _ => decide

/-- Kinds are told apart by their names. -/
theorem name_injective {k k' : Kind} (h : k.name = k'.name) : k = k' := by
  have hfound := ofName?_name k
  rw [h, ofName?_name k'] at hfound
  exact (Option.some.inj hfound).symm

end Kind

end LoxCalc
