/-! # Character classes of the dialect

Names and digits of the dialect are ASCII, and so are the blanks between tokens: letters, digits and
blanks are `Char.isAlpha`, `Char.isDigit`, `Char.isAlphanum` and `Char.isWhitespace`, none of which
holds of a character beyond U+007F. Two classes are the dialect's own.

* `CharClass.isSingleSpecial`: the characters that are a token by themselves, whatever follows.
* `CharClass.digitValue?`: the value of a digit, `0` to `9` and then the letters in either case. -/

namespace Smalltalk.CharClass

/-- One of `+ * . ; [ ] ( ) | ^ & @`, a special token by itself whatever follows. -/
def isSingleSpecial (c : Char) : Bool :=
  ['+', '*', '.', ';', '[', ']', '(', ')', '|', '^', '&', '@'].contains c

/-- The value of a digit in a radix up to 36; upper and lower case letters have the same value. -/
def digitValue? (c : Char) : Option Nat :=
  if c.isDigit then some (c.toNat - '0'.toNat)
  else if c.isLower then some (c.toNat - 'a'.toNat + 10)
  else if c.isUpper then some (c.toNat - 'A'.toNat + 10)
  else none

end Smalltalk.CharClass
