import Smalltalk.Text
import Smalltalk.Double.Shortest

/-! # How a number is written

A number token carries the canonical text of its value: the fewest digits that read back, without a
superfluous fraction, in positional notation for magnitudes from `10 ^ -6` up to `10 ^ 21` and with
a signed power of ten otherwise. Both zeros are written `0`. -/

namespace Smalltalk.Double

/-- The digits of a numeral without trailing zeros. -/
def significant (digits : Nat) : Text :=
  ((Nat.toDigits 10 digits).reverse.dropWhile (· = '0')).reverse

/-- A whole part and a fraction, with a point between them if there is a fraction. -/
def pointed (whole fraction : Text) : Text :=
  if fraction = [] then whole else whole ++ '.' :: fraction

/-- Positional notation of digits whose first one stands at `10 ^ leading`. -/
def positional (digits : Text) (leading : Int) : Text :=
  if leading < 0 then pointed ['0'] (List.replicate (-leading - 1).toNat '0' ++ digits)
  else
    let width := leading.toNat + 1
    pointed (digits.take width ++ List.replicate (width - digits.length) '0') (digits.drop width)

/-- Scientific notation of digits whose first one stands at `10 ^ leading`. -/
def scientific (digits : Text) (leading : Int) : Text :=
  pointed (digits.take 1) (digits.drop 1) ++ 'e' :: (if leading < 0 then '-' else '+') ::
    Text.ofNat leading.natAbs

/-- The text of a positive numeral. -/
def magnitudeText (d : Decimal) : Text :=
  let leading : Int := (Nat.toDigits 10 d.digits).length - 1 + d.exponent
  if -6 ≤ leading ∧ leading < 21 then positional (significant d.digits) leading
  else scientific (significant d.digits) leading

/-- A minus sign for negative numbers. -/
def signText (negative : Bool) : Text := if negative then ['-'] else []

/-- **The canonical text of a double.** -/
def toText : Double → Text
  | nan => "NaN".toList
  | infinite s => signText s ++ "Infinity".toList
  | finite s m q => if m = 0 then ['0'] else signText s ++ magnitudeText (Decimal.shortest m q)

end Smalltalk.Double
