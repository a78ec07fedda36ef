import Smalltalk.Double.Basic
import Smalltalk.Text.CharClass
import Smalltalk.Toml.Value

/-! # Strings, numbers and dates of TOML

Each reader takes a text and gives the value at its front with what follows it, or nothing if there
is none. Numbers and dates are read as one word, which is then judged as a whole. -/

namespace Smalltalk.Toml

/-- A character that may stand in a comment or in a string on one line: no control character but the
tab. -/
def isPlain (c : Char) : Bool := c = '\t' || (0x20 ≤ c.toNat && c.toNat ≠ 0x7f)

/-- A blank within a line. -/
def isBlank (c : Char) : Bool := c = ' ' || c = '\t'

/-- What follows a line end at the front. -/
def dropNewline? : Text → Option Text
  | '\n' :: t => some t
  | '\r' :: '\n' :: t => some t
  | _ => none

/-! ### Strings -/

/-- The character with a hexadecimal code point. -/
def ofHex? (digits : Text) : Option Char :=
  let value := digits.foldl (fun (n : Option Nat) c => do
    let n ← n
    let d ← CharClass.digitValue? c
    if d < 16 then some (16 * n + d) else none) (some 0)
  value.bind fun n => if n < 0xd800 ∨ (0xe000 ≤ n ∧ n < 0x110000) then some (Char.ofNat n) else none

/-- The character that a letter after a backslash stands for. -/
def escape? : Char → Option Char
  | 'b' => some '\x08'
  | 't' => some '\t'
  | 'n' => some '\n'
  | 'f' => some '\x0c'
  | 'r' => some '\r'
  | '\x22' => some '\x22'
  | '\\' => some '\\'
  | _ => none

/-- Puts a character before what a reader gave. -/
def push (c : Option Char) (r : Option (Text × Text)) : Option (Text × Text) := do
  let c ← c
  let (s, t) ← r
  return (c :: s, t)

/-- A basic string, from what follows its opening quote. -/
def basicString : Text → Option (Text × Text)
  | [] => none
  | '\\' :: 'u' :: a :: b :: c :: d :: t => push (ofHex? [a, b, c, d]) (basicString t)
  | '\\' :: 'U' :: a :: b :: c :: d :: e :: f :: g :: h :: t =>
    push (ofHex? [a, b, c, d, e, f, g, h]) (basicString t)
  | '\\' :: c :: t => push (escape? c) (basicString t)
  | c :: t =>
    if c = '\x22' then some ([], t)
    else if isPlain c then push (some c) (basicString t)
    else none

/-- A literal string, from what follows its opening quote. -/
def literalString : Text → Option (Text × Text)
  | [] => none
  | c :: t =>
    if c = '\x27' then some ([], t)
    else if isPlain c then push (some c) (literalString t)
    else none

/-- The rest of the line is blank. -/
def blankToLineEnd (t : Text) : Bool := (dropNewline? (t.dropWhile isBlank)).isSome

/-- A basic string of several lines, from what follows its opening quotes and the line end behind
them. A backslash at the end of a line drops all blanks and line ends behind it, which `dropping`
says. -/
def longBasicString (dropping : Bool) : Text → Option (Text × Text)
  | [] => none
  | '\x22' :: '\x22' :: '\x22' :: '\x22' :: '\x22' :: t => some (['\x22', '\x22'], t)
  | '\x22' :: '\x22' :: '\x22' :: '\x22' :: t => some (['\x22'], t)
  | '\x22' :: '\x22' :: '\x22' :: t => some ([], t)
  | '\\' :: 'u' :: a :: b :: c :: d :: t => push (ofHex? [a, b, c, d]) (longBasicString false t)
  | '\\' :: 'U' :: a :: b :: c :: d :: e :: f :: g :: h :: t =>
    push (ofHex? [a, b, c, d, e, f, g, h]) (longBasicString false t)
  | '\\' :: c :: t =>
    if blankToLineEnd (c :: t) then longBasicString true (c :: t)
    else push (escape? c) (longBasicString false t)
  | '\r' :: '\n' :: t =>
    if dropping then longBasicString true t else push (some '\n') (longBasicString false t)
  | c :: t =>
    if dropping && (isBlank c || c = '\n') then longBasicString true t
    else if c = '\n' || isPlain c then push (some c) (longBasicString false t)
    else none

/-- A literal string of several lines, from what follows its opening quotes and the line end behind
them. -/
def longLiteralString : Text → Option (Text × Text)
  | [] => none
  | '\x27' :: '\x27' :: '\x27' :: '\x27' :: '\x27' :: t => some (['\x27', '\x27'], t)
  | '\x27' :: '\x27' :: '\x27' :: '\x27' :: t => some (['\x27'], t)
  | '\x27' :: '\x27' :: '\x27' :: t => some ([], t)
  | '\r' :: '\n' :: t => push (some '\n') (longLiteralString t)
  | c :: t => if c = '\n' || isPlain c then push (some c) (longLiteralString t) else none

/-- The text without a line end at its front. -/
def dropNewline (t : Text) : Text := (dropNewline? t).getD t

/-- A string on one line. -/
def shortString : Text → Option (Text × Text)
  | '\x22' :: t => basicString t
  | '\x27' :: t => literalString t
  | _ => none

/-- A string of any form. -/
def anyString : Text → Option (Text × Text)
  | '\x22' :: '\x22' :: '\x22' :: t => longBasicString false (dropNewline t)
  | '\x27' :: '\x27' :: '\x27' :: t => longLiteralString (dropNewline t)
  | t => shortString t

/-! ### Numbers -/

/-- Digits of a radix, with single underscores between them. -/
def isDigits (radix : Nat) (t : Text) : Bool :=
  (t.splitAll '_').all fun part =>
    part ≠ [] && part.all fun c => (CharClass.digitValue? c).any (· < radix)

/-- The number that digits with underscores stand for. -/
def digitsValue (radix : Nat) (t : Text) : Nat :=
  t.foldl (fun n c => if c = '_' then n else radix * n + (CharClass.digitValue? c).getD 0) 0

/-- The word without a sign, and whether it had a minus sign. -/
def dropSign : Text → Bool × Text
  | '+' :: t => (false, t)
  | '-' :: t => (true, t)
  | t => (false, t)

/-- A decimal integer without sign: digits, the first of several not zero. -/
def isDecimal (t : Text) : Bool := isDigits 10 t && (t.length = 1 || t.head? ≠ some '0')

/-- Integers have 64 bits, one of them for the sign, so they stay below `2 ^ 63`. -/
def integerLimit : Nat := 9223372036854775808

/-- A word that is an integer of 64 bits. -/
def isInteger (t : Text) : Bool :=
  match t with
  | '0' :: 'x' :: t => isDigits 16 t && digitsValue 16 t < integerLimit
  | '0' :: 'o' :: t => isDigits 8 t && digitsValue 8 t < integerLimit
  | '0' :: 'b' :: t => isDigits 2 t && digitsValue 2 t < integerLimit
  | t =>
    let (negative, t) := dropSign t
    isDecimal t && digitsValue 10 t < integerLimit + negative.toNat

/-- The exponent of a floating-point number, from what follows `e`. -/
def isExponent (t : Text) : Bool := isDigits 10 (dropSign t).2

/-- The number that an exponent stands for. -/
def exponentValue (t : Text) : Int :=
  Double.signed (dropSign t).1 (digitsValue 10 (dropSign t).2)

/-- The double nearest to a numeral without sign. -/
def floatValue (whole fraction exponent : Text) : Double :=
  Double.ofDecimal false (digitsValue 10 (whole ++ fraction))
    (exponentValue exponent - (fraction.filter (· ≠ '_')).length)

/-- A word that is a floating-point number. A positive one must not be too large for a double; what
is below all doubles counts as the negative infinity. -/
def isFloat (t : Text) : Bool :=
  let (negative, t) := dropSign t
  if t = "inf".toList ∨ t = "nan".toList then true
  else
    let (mantissa, exponent) := Text.cut 'e' (t.map fun c => if c = 'E' then 'e' else c)
    let (whole, fraction) := Text.cut '.' mantissa
    isDecimal whole && fraction.all (isDigits 10) && exponent.all isExponent &&
      (fraction.isSome || exponent.isSome) &&
      (negative || floatValue whole (fraction.getD []) (exponent.getD []) ≠ .infinite false)

/-! ### Dates -/

/-- The number that two or four digits stand for. -/
def ofDigits? (t : Text) : Option Nat :=
  if t ≠ [] && t.all Char.isDigit then some (digitsValue 10 t) else none

/-- The number of days of a month. -/
def monthLength (year month : Nat) : Nat :=
  if month = 2 then
    if year % 4 = 0 ∧ (year % 100 ≠ 0 ∨ year % 400 = 0) then 29 else 28
  else if month = 4 ∨ month = 6 ∨ month = 9 ∨ month = 11 then 30
  else 31

/-- A word that is a date `YYYY-MM-DD`. -/
def isDate : Text → Bool
  | [y, y', y'', y''', '-', m, m', '-', d, d'] =>
    match ofDigits? [y, y', y'', y'''], ofDigits? [m, m'], ofDigits? [d, d'] with
    | some year, some month, some day =>
      1 ≤ month && month ≤ 12 && 1 ≤ day && day ≤ monthLength year month
    | _, _, _ => false
  | _ => false

/-- Hours and minutes. -/
def isHourMinute (h h' m m' : Char) : Bool :=
  (ofDigits? [h, h']).any (· ≤ 23) && (ofDigits? [m, m']).any (· ≤ 59)

/-- A word that is a time `hh:mm:ss` with an optional fraction. -/
def isTime : Text → Bool
  | h :: h' :: ':' :: m :: m' :: ':' :: s :: s' :: t =>
    isHourMinute h h' m m' && (ofDigits? [s, s']).any (· ≤ 60) &&
      match t with
      | [] => true
      | '.' :: t => (ofDigits? t).isSome
      | _ => false
  | _ => false

/-- What stands before the offset from universal time, if the offset is well formed. -/
def dropOffset (t : Text) : Text :=
  match t.reverse with
  | 'Z' :: r | 'z' :: r => r.reverse
  | m' :: m :: ':' :: h' :: h :: sign :: r =>
    if (sign = '+' || sign = '-') && isHourMinute h h' m m' then r.reverse else t
  | _ => t

/-- A word that is a date, a time, or a date with a time and an optional offset. -/
def isDateTime (t : Text) : Bool :=
  isDate t || isTime t ||
    (isDate (t.take 10) && ((t.drop 10).head?.any fun c => c = 'T' || c = 't' || c = ' ') &&
      isTime (dropOffset (t.drop 11)))

/-! ### Words -/

/-- A character of a number or date. -/
def isWordChar (c : Char) : Bool :=
  c.isAlphanum || c = '_' || c = '+' || c = '-' || c = '.' || c = ':'

/-- The word at the front. A date and a time with one blank between them are one word. -/
def word (t : Text) : Text × Text :=
  let first := t.takeWhile isWordChar
  let rest := t.dropWhile isWordChar
  match isDate first, rest with
  | true, ' ' :: c :: t =>
    if c.isDigit then (first ++ ' ' :: (c :: t).takeWhile isWordChar, (c :: t).dropWhile isWordChar)
    else (first, rest)
  | _, _ => (first, rest)

/-- The value a word stands for. -/
def ofWord? (t : Text) : Option Value :=
  if t = "true".toList then some (.boolean true)
  else if t = "false".toList then some (.boolean false)
  else if isInteger t then some .integer
  else if isFloat t then some .float
  else if isDateTime t then some .date
  else none

end Smalltalk.Toml
