/-! # Double-precision numbers

A finite double is `± mantissa · 2 ^ exponent` with a mantissa of at most 53 bits; beside the finite
ones there are two infinities and one value that is no number. Arithmetic is exact on integers and
rounds once, to the nearest double and to the even mantissa in between, so every operation is a
function of the exact result alone.

* `Double.round`: the double nearest to a quotient of natural numbers.
* `Double.ofDecimal`: the double nearest to a decimal numeral.
* `Double.Canonical`: the one form a value has; with it, equality is equality of bits.
* `Double.toBits`, `Double.ofBits`: the 64-bit form. -/

namespace Smalltalk

/-- A double: finite `± mantissa · 2 ^ exponent`, an infinity, or no number. -/
inductive Double where
  | finite (negative : Bool) (mantissa : Nat) (exponent : Int)
  | infinite (negative : Bool)
  | nan
  deriving DecidableEq

namespace Double

/-- The least exponent of a finite double. -/
def minExponent : Int := -1074

/-- The greatest exponent of a finite double. -/
def maxExponent : Int := 971

/-- The least mantissa of full length, `2 ^ 52`. -/
def fullMantissa : Nat := 4503599627370496

/-- The weight of the sign among the 64 bits, `2 ^ 63`. -/
def signWeight : Nat := 9223372036854775808

/-- The form every value has: a mantissa below `2 ^ 53`, and at least `2 ^ 52` unless the exponent
is already the least one. -/
def Canonical : Double → Prop
  | finite _ m q =>
    m < 2 * fullMantissa ∧ minExponent ≤ q ∧ q ≤ maxExponent ∧
      (q = minExponent ∨ fullMantissa ≤ m)
  | _ => True

/-- Zero with a sign. -/
def zero (negative : Bool) : Double := finite negative 0 minExponent

/-! ### Rounding -/

/-- The natural number nearest to `n / d`, the even one of two that are equally near. -/
def roundQuotient (n d : Nat) : Nat :=
  if 2 * (n % d) < d ∨ (2 * (n % d) = d ∧ n / d % 2 = 0) then n / d else n / d + 1

/-- The greatest `k` with `base ^ k ≤ num / den`, given an estimate that is it or one more. -/
def floorLog (base num den : Nat) (estimate : Int) : Int :=
  if den * Nat.pow base estimate.toNat ≤ num * Nat.pow base (-estimate).toNat then estimate
  else estimate - 1

/-- The double nearest to `± num / den`, infinite when that is too large. -/
def round (negative : Bool) (num den : Nat) : Double :=
  if num = 0 then zero negative
  else
    let size := floorLog 2 num den ((num.log2 : Int) - den.log2)
    let q := max (size - 52) minExponent
    let m := roundQuotient (num * Nat.pow 2 (-q).toNat) (den * Nat.pow 2 q.toNat)
    let (m, q) := if m = 2 * fullMantissa then (fullMantissa, q + 1) else (m, q)
    if maxExponent < q then infinite negative else finite negative m q

/-- The double nearest to a natural number. -/
def ofNat (n : Nat) : Double := round false n 1

/-- The double nearest to `± digits · 10 ^ exponent`. Numerals of at least `10 ^ 310` are infinite
and those below `10 ^ -330` are zero, so that no huge power is ever formed. -/
def ofDecimal (negative : Bool) (digits : Nat) (exponent : Int) : Double :=
  let size := (Nat.toDigits 10 digits).length + exponent
  if digits = 0 ∨ size < -330 then zero negative
  else if 310 < size then infinite negative
  else round negative (digits * Nat.pow 10 exponent.toNat) (Nat.pow 10 (-exponent).toNat)

/-! ### Arithmetic -/

/-- The opposite number. -/
def neg : Double → Double
  | finite s m q => finite (!s) m q
  | infinite s => infinite (!s)
  | nan => nan

/-- The rounded product; zero times an infinity is no number. -/
def mul : Double → Double → Double
  | nan, _ | _, nan => nan
  | infinite s, infinite t => infinite (s != t)
  | infinite s, finite t m _ | finite s m _, infinite t =>
    if m = 0 then nan else infinite (s != t)
  | finite s m q, finite t n r =>
    round (s != t) (m * n * Nat.pow 2 (q + r).toNat) (Nat.pow 2 (-(q + r)).toNat)

/-- The integer `± m`. -/
def signed (negative : Bool) (m : Nat) : Int := if negative then -m else m

/-- The rounded sum; opposite infinities have none, and a sum that cancels is positive zero. -/
def add : Double → Double → Double
  | nan, _ | _, nan => nan
  | infinite s, infinite t => if s = t then infinite s else nan
  | infinite s, finite .. | finite .., infinite s => infinite s
  | finite s m q, finite t n r =>
    let e := min q r
    let sum := signed s (m * Nat.pow 2 (q - e).toNat) + signed t (n * Nat.pow 2 (r - e).toNat)
    if sum = 0 then zero (s && t)
    else round (sum < 0) (sum.natAbs * Nat.pow 2 e.toNat) (Nat.pow 2 (-e).toNat)

instance : Neg Double := ⟨neg⟩
instance : Mul Double := ⟨mul⟩
instance : Add Double := ⟨add⟩

/-! ### The 64-bit form -/

/-- The 64 bits of a double: sign, biased exponent, mantissa without its leading bit. -/
def toBits : Double → Nat
  | finite s m q =>
    s.toNat * signWeight +
      (if m < fullMantissa then m else (q + 1075).toNat * fullMantissa + (m - fullMantissa))
  | infinite s => s.toNat * signWeight + 2047 * fullMantissa
  | nan => 2047 * fullMantissa + fullMantissa / 2

/-- The double that 64 bits stand for. -/
def ofBits (bits : Nat) : Double :=
  let s := bits / signWeight % 2 == 1
  let e : Nat := bits / fullMantissa % 2048
  let f : Nat := bits % fullMantissa
  if e = 2047 then (if f = 0 then infinite s else nan)
  else if e = 0 then finite s f minExponent
  else finite s (fullMantissa + f) (e - 1075)

end Double

end Smalltalk
