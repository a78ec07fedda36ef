import Smalltalk.Text.Json
import Smalltalk.Text.Quoted

/-! # Tokens

A token is a piece of source text with a kind and a decoded value: strings have lost their
delimiters and doubled backquotes, symbols their `#`, numbers are already in canonical form, and
special tokens carry their exact spelling. -/

namespace Smalltalk

/-- The kinds of tokens. -/
inductive TokenKind where
  /-- Punctuation and operators such as `+`, `<-`, `#(`. -/
  | special
  /-- A numeric literal; the value is its canonical text. -/
  | number
  /-- A string between backquotes. -/
  | string
  /-- A symbol `#name`; the value is what follows `#`. -/
  | symbol
  /-- A character literal `$c`; the value is that character. -/
  | char
  /-- A name. -/
  | identifier
  /-- A name followed by a colon, which is no part of the value. -/
  | parameter
  /-- A name after a colon, which is no part of the value. -/
  | blockArgument
  /-- A comment between double quotes, which are no part of the value. -/
  | comment
  /-- A run of blanks. -/
  | whitespace
  deriving DecidableEq

namespace TokenKind

/-- The short name of a kind. -/
def name : TokenKind → Text
  | special => "sc".toList
  | number => "number".toList
  | string => "string".toList
  | symbol => "symbol".toList
  | char => "char".toList
  | identifier => "identifier".toList
  | parameter => "parameter".toList
  | blockArgument => "blockArgument".toList
  | comment => "comment".toList
  | whitespace => "whitespace".toList

/-- All kinds. -/
def all : List TokenKind :=
  [special, number, string, symbol, char, identifier, parameter, blockArgument, comment, whitespace]

/-- The kind with a given short name. -/
def ofName? (name : Text) : Option TokenKind := all.find? (·.name = name)

/-- A kind is the one with its name. -/
theorem ofName?_name (k : TokenKind) : ofName? k.name = some k := by cases k <;> rfl

end TokenKind

/-- A kind and a decoded value. -/
structure Token where
  kind : TokenKind
  value : Text
  deriving DecidableEq

namespace Token

/-- The token for a reader: its kind and its quoted value. -/
def display (t : Token) : Text := t.kind.name ++ ['('] ++ t.value.quoted ++ [')']

/-- The token as a JSON object. -/
def json (t : Token) : Text :=
  "\x7b\"t\":".toList ++ t.kind.name.jsonString ++ ",\"v\":".toList ++ t.value.jsonString ++
    "\x7d".toList

end Token

end Smalltalk
