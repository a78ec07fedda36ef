import Smalltalk.Double.Basic

/-! # The fewest digits of a double

Of the decimal numerals that read back as a given double, the ones with the fewest digits are
meant, and of these the nearest. For each number of digits only the two neighbours of the double on
the grid of such numerals need to be tried: if a point of the grid reads back, one of them does. -/

namespace Smalltalk

/-- The number `digits · 10 ^ exponent`. -/
structure Decimal where
  digits : Nat
  exponent : Int
  deriving DecidableEq

namespace Decimal

/-- The double nearest to the numeral. -/
def toDouble (d : Decimal) (negative : Bool) : Double :=
  Double.ofDecimal negative d.digits d.exponent

/-- The neighbours of `num / den` among the numerals with unit `10 ^ unit`, the nearer one first and
the larger one first if both are equally near. -/
def neighbours (num den : Nat) (unit : Int) : List Decimal :=
  let n := num * Nat.pow 10 (-unit).toNat
  let d := den * Nat.pow 10 unit.toNat
  let below : Decimal := ⟨n / d, unit⟩
  let above : Decimal := ⟨n / d + 1, unit⟩
  if 2 * (n % d) < d then [below, above] else [above, below]

/-- All digits of `mantissa · 2 ^ exponent`. -/
def exact (mantissa : Nat) (exponent : Int) : Decimal :=
  if 0 ≤ exponent then ⟨mantissa * Nat.pow 2 exponent.toNat, 0⟩
  else ⟨mantissa * Nat.pow 5 (-exponent).toNat, exponent⟩

/-- The fewest digits that read back as the positive double `mantissa · 2 ^ exponent`, the nearest
of them to it. Seventeen digits are always enough; all digits stand last so that the answer reads
back whatever the search finds. -/
def shortest (mantissa : Nat) (exponent : Int) : Decimal :=
  let num := mantissa * Nat.pow 2 exponent.toNat
  let den := Nat.pow 2 (-exponent).toNat
  let size := Double.floorLog 10 num den
    ((Nat.toDigits 10 num).length - (Nat.toDigits 10 den).length)
  let readsBack (d : Decimal) : Bool := d.toDouble false = .finite false mantissa exponent
  let found := (List.range 17).findSome? fun (n : Nat) =>
    (neighbours num den (size - n)).find? readsBack
  found.getD (exact mantissa exponent)

end Decimal

end Smalltalk
