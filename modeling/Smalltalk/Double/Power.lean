import Smalltalk.Double.Basic

/-! # Powers of a radix

`Double.power b e` is `b ^ e` as a double. A power that a double holds exactly is that double. For
the others the elementary-function library of the machine chooses, as it does for every program on
it, and its choice is taken only among the nearest double and the two next to it: the exact quotient
of natural numbers bounds what the machine may answer. -/

namespace Smalltalk.Double

/-- The double is `num / den` exactly. -/
def IsQuotient (num den : Nat) : Double → Prop
  | finite s m q => s = false ∧ m * Nat.pow 2 q.toNat * den = num * Nat.pow 2 (-q).toNat
  | _ => False

instance (num den : Nat) (x : Double) : Decidable (x.IsQuotient num den) := by
  cases x <;> unfold IsQuotient <;> infer_instance

/-- Two doubles of one sign that are equal or next to each other. -/
def Adjacent (x y : Double) : Prop := x.toBits ≤ y.toBits + 1 ∧ y.toBits ≤ x.toBits + 1

instance (x y : Double) : Decidable (x.Adjacent y) := by
  unfold Adjacent; infer_instance

/-- The machine's own answer for `b ^ e`. -/
def machinePower (b : Nat) (e : Int) : Double :=
  ofBits ((Float.ofNat b).pow (Float.ofInt e)).toBits.toNat

/-- The power `b ^ e` of a radix `b ≥ 2`. -/
def power (b : Nat) (e : Int) : Double :=
  if 1100 < e then infinite false
  else if e < -1100 then zero false
  else
    let num := Nat.pow b e.toNat
    let den := Nat.pow b (-e).toNat
    let nearest := round false num den
    if nearest.IsQuotient num den then nearest
    else if (machinePower b e).Adjacent nearest then machinePower b e
    else nearest

end Smalltalk.Double
