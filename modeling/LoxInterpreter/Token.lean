import LoxInterpreter.Constant

/-!
Contract: the words of the language.

Owns: `Keyword`, `Token.Kind` with its two names (the upper-case name of the kind and the symbol that
spells it), and `Token`: a kind, the slice of source text it was read from, and the line on which it
ends.
Does not own: how source text is cut into tokens (`Token.Scan`).
-/

namespace LoxInterpreter

inductive Keyword where
  | andWord
  | classWord
  | elseWord
  | falseWord
  | forWord
  | funWord
  | ifWord
  | nilWord
  | orWord
  | printWord
  | returnWord
  | superWord
  | thisWord
  | trueWord
  | varWord
  | whileWord
deriving DecidableEq, Repr

namespace Keyword

def spelling : Keyword → String
  | andWord => "and"
  | classWord => "class"
  | elseWord => "else"
  | falseWord => "false"
  | forWord => "for"
  | funWord => "fun"
  | ifWord => "if"
  | nilWord => "nil"
  | orWord => "or"
  | printWord => "print"
  | returnWord => "return"
  | superWord => "super"
  | thisWord => "this"
  | trueWord => "true"
  | varWord => "var"
  | whileWord => "while"

def all : List Keyword :=
  [andWord, classWord, elseWord, falseWord, forWord, funWord, ifWord, nilWord, orWord, printWord,
    returnWord, superWord, thisWord, trueWord, varWord, whileWord]

def ofSpelling? (text : String) : Option Keyword := all.find? (·.spelling == text)

def startsStatement : Keyword → Bool
  | classWord | forWord | funWord | ifWord | printWord | returnWord | varWord | whileWord => true
  | _ => false

end Keyword

/-- What a token is. Strings and numbers carry the value that they denote; the name of an identifier
is its lexeme. -/
inductive Token.Kind where
  | leftParen
  | rightParen
  | leftBrace
  | rightBrace
  | comma
  | dot
  | minus
  | plus
  | semicolon
  | slash
  | star
  | bang
  | bangEqual
  | equal
  | equalEqual
  | greater
  | greaterEqual
  | less
  | lessEqual
  | identifier
  | string (value : String)
  | number (value : Float)
  | keyword (word : Keyword)
  | endOfInput
deriving DecidableEq, Repr

namespace Token.Kind

/-- The kind as its symbol: what operators, marks and reserved words are spelled with, and a word
for the other kinds. -/
def symbol : Token.Kind → String
  | leftParen => "("
  | rightParen => ")"
  | leftBrace => "\x7b"
  | rightBrace => "\x7d"
  | comma => ","
  | dot => "."
  | minus => "-"
  | plus => "+"
  | semicolon => ";"
  | slash => "/"
  | star => "*"
  | bang => "!"
  | bangEqual => "!="
  | equal => "="
  | equalEqual => "=="
  | greater => ">"
  | greaterEqual => ">="
  | less => "<"
  | lessEqual => "<="
  | identifier => "identifier"
  | string _ => "string"
  | number _ => "number"
  | keyword word => word.spelling
  | endOfInput => "eof"

def name : Token.Kind → String
  | leftParen => "LEFT_PAREN"
  | rightParen => "RIGHT_PAREN"
  | leftBrace => "LEFT_BRACE"
  | rightBrace => "RIGHT_BRACE"
  | comma => "COMMA"
  | dot => "DOT"
  | minus => "MINUS"
  | plus => "PLUS"
  | semicolon => "SEMICOLON"
  | slash => "SLASH"
  | star => "STAR"
  | bang => "BANG"
  | bangEqual => "BANG_EQUAL"
  | equal => "EQUAL"
  | equalEqual => "EQUAL_EQUAL"
  | greater => "GREATER"
  | greaterEqual => "GREATER_EQUAL"
  | less => "LESS"
  | lessEqual => "LESS_EQUAL"
  | identifier => "IDENTIFIER"
  | string _ => "STRING"
  | number _ => "NUMBER"
  | keyword word => word.spelling.toUpper
  | endOfInput => "EOF"

/-- One kind for each symbol; a string and a number stand for all of theirs. -/
def all : List Token.Kind :=
  [leftParen, rightParen, leftBrace, rightBrace, comma, dot, minus, plus, semicolon, slash, star,
    bang, bangEqual, equal, equalEqual, greater, greaterEqual, less, lessEqual, identifier,
    string "", number 0] ++ Keyword.all.map keyword ++ [endOfInput]

def ofSymbol? (symbol : String) : Option Token.Kind := all.find? (·.symbol == symbol)

end Token.Kind

/-- A token: its kind, the slice of source text it was read from, and the line on which it ends. -/
structure Token where
  kind : Token.Kind
  lexeme : String
  line : Nat
deriving DecidableEq, Repr

namespace Token

def ofName (name : String) (line : Nat) : Token := ⟨.identifier, name, line⟩

/-- The token that closes every complete token list. -/
def closing (line : Nat) : Token := ⟨.endOfInput, "", line⟩

/-- The token of a kind that is written as its own symbol. -/
def ofSymbol (kind : Token.Kind) (line : Nat) : Token := ⟨kind, kind.symbol, line⟩

end Token

end LoxInterpreter
