import Smalltalk.Double.Power
import Smalltalk.ScanError
import Smalltalk.Text.CharClass

/-! # The value of a numeric literal

A literal without `r` is decimal: a mantissa, and after the first `e` a power of ten. A literal
`<radix>r<digits>` is read in its radix: an optional minus sign, digits with at most one point, and
after the first `e` a power of the radix.

Signs and digits are read as far as they go and what follows them is ignored, so `12ab` is 12; but
in a radix every character has to be a digit. Offsets in errors count from the start of the
literal. -/

namespace Smalltalk.Numeral

/-! ### Prefixes that are numbers -/

/-- Whether a text starts with a minus sign, and what follows a sign. -/
def cutSign : Text → Bool × Text
  | '-' :: t => (true, t)
  | '+' :: t => (false, t)
  | t => (false, t)

/-- The number that decimal digits stand for. -/
def ofDigits (digits : Text) : Nat :=
  digits.foldl (fun n c => 10 * n + (c.toNat - '0'.toNat)) 0

/-- The integer at the front of a text: an optional sign and at least one digit. -/
def integerPrefix? (t : Text) : Option Int :=
  let (negative, t) := cutSign t
  let digits := t.takeWhile Char.isDigit
  if digits = [] then none else some (Double.signed negative (ofDigits digits))

/-- The power of ten after a mantissa; `e` or `E` without a number counts for nothing. -/
def exponentPrefix : Text → Int
  | 'e' :: t | 'E' :: t => (integerPrefix? t).getD 0
  | _ => 0

/-- The decimal number at the front of a text: an optional sign, digits with at most one point, and
an optional power of ten. -/
def decimalPrefix? (t : Text) : Option Double :=
  let (negative, t) := cutSign t
  let whole := t.takeWhile Char.isDigit
  let (fraction, t) := match t.dropWhile Char.isDigit with
    | '.' :: t => (t.takeWhile Char.isDigit, t.dropWhile Char.isDigit)
    | t => ([], t)
  if whole = [] ∧ fraction = [] then none
  else some (Double.ofDecimal negative (ofDigits (whole ++ fraction))
    (exponentPrefix t - fraction.length))

/-! ### Decimal literals -/

/-- The value of a literal without `r`. -/
def decimal (literal : Text) : Except ScanError Double :=
  let malformed := ScanFault.malformedNumber literal
  match literal.cut 'e' with
  | (mantissa, exponent) => do
    let some base := decimalPrefix? mantissa | throw ⟨malformed, 0⟩
    match exponent with
    | none => return base
    | some exponent =>
      let some e := integerPrefix? exponent | throw ⟨malformed, mantissa.byteLength⟩
      return base * Double.power 10 e

/-! ### Literals with a radix -/

/-- The radix before `r`. -/
def radix? (t : Text) : Option Nat :=
  (integerPrefix? t).bind fun n => if 2 ≤ n ∧ n ≤ 36 then some n.toNat else none

/-- The values of the digits at byte offset `offset`, or the first character that is none. -/
def radixDigits (radix offset : Nat) : Text → Except ScanError (List Nat)
  | [] => .ok []
  | c :: cs => do
    match CharClass.digitValue? c with
    | some d =>
      if d < radix then
        return d :: (← radixDigits radix (offset + c.utf8Size) cs)
      else throw ⟨.invalidDigit c radix, offset⟩
    | none => throw ⟨.invalidDigit c radix, offset⟩

/-- The integer with these digits, each added to the radix times what stands before it. -/
def wholeValue (radix : Nat) (digits : List Nat) : Double :=
  digits.foldl (fun value d => value * Double.ofNat radix + Double.ofNat d) (Double.zero false)

/-- Adds the digits after the point, the first of which has the weight `radix ^ -place`. -/
def addFraction (radix place : Nat) (value : Double) : List Nat → Double
  | [] => value
  | d :: ds =>
    addFraction radix (place + 1) (value + Double.ofNat d * Double.power radix (-place)) ds

/-- The value of a literal with the text `before` before its first `r` and `body` after it. -/
def inRadix (literal before body : Text) : Except ScanError Double := do
  let some radix := radix? before | throw ⟨.invalidRadix before, 0⟩
  let bodyStart := before.byteLength + 1
  let (mantissa, exponent) := body.cut 'e'
  let negative := mantissa.head? = some '-'
  let digits : Text := if negative then mantissa.drop 1 else mantissa
  let start := if negative then bodyStart + 1 else bodyStart
  let (whole, fraction) := digits.cut '.'
  let wholeDigits ← radixDigits radix start whole
  let fractionDigits ← radixDigits radix (start + whole.byteLength + 1) (fraction.getD [])
  let value := addFraction radix 1 (wholeValue radix wholeDigits) fractionDigits
  let value ← match exponent with
    | none => pure value
    | some exponent =>
      match integerPrefix? exponent with
      | some e => pure (value * Double.power radix e)
      | none => throw ⟨.malformedNumber literal, bodyStart + mantissa.byteLength⟩
  return if negative then -value else value

/-- **The value of a numeric literal.** -/
def evaluate (literal : Text) : Except ScanError Double :=
  match literal.cut 'r' with
  | (before, some body) => inRadix literal before body
  | (_, none) => decimal literal

end Smalltalk.Numeral
