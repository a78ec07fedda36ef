import Smalltalk.Text
import Smalltalk.Text.Extending
import Smalltalk.Text.Printable

/-! # Quoted texts

A quoted text stands between double quotes on one line and shows every character: quotes,
backslashes and the usual controls are escaped by a letter, and what can not be seen is written by
its code point, as in `\u{301}`. -/

namespace Smalltalk.Text

/-- The lowercase hexadecimal numeral of a natural number. -/
def hexadecimal (n : Nat) : Text := Nat.toDigits 16 n

/-- A character by its code point: `\u{…}`. -/
def codePoint (c : Char) : Text :=
  ['\\', 'u', '\x7b'] ++ hexadecimal c.toNat ++ ['\x7d']

/-- How a character stands in a quoted text. -/
def quotedChar (c : Char) : Text :=
  match c with
  | '\x00' => ['\\', '0']
  | '\t' => ['\\', 't']
  | '\n' => ['\\', 'n']
  | '\r' => ['\\', 'r']
  | '\x22' => ['\\', '\x22']
  | '\\' => ['\\', '\\']
  | c => if isExtending c || !isPrintable c then codePoint c else [c]

/-- The text between double quotes. -/
def quoted (t : Text) : Text := ['\x22'] ++ t.flatMap quotedChar ++ ['\x22']

end Smalltalk.Text
