import Mathlib.Algebra.Order.Field.Power
import Mathlib.Algebra.Order.Floor.Semifield
import Mathlib.Data.Int.Log
import Mathlib.Data.Rat.Floor
import Mathlib.Tactic.FieldSimp
import Mathlib.Tactic.Linarith
import Mathlib.Tactic.Positivity
import Mathlib.Tactic.Ring
import Smalltalk.Double.Basic

/-! # Rounding to doubles

Rounding takes a quotient of natural numbers, but what comes out depends on the rational number
alone. The doubles about a number `x` are the multiples of `2 ^ unitExponent x`, and the nearest
multiple is taken, the even one of two.

* `Double.nearest`: the double nearest to a rational number; `Double.round_eq_nearest`.
* `Double.canonical_nearest`, `Double.nearest_of_canonical`: what comes out has its form, and a
  number that is a double is rounded to itself.
* `Double.rounded_mono`: rounding keeps the order.
* `Double.ofDecimal_eq_nearest`: decimal numerals are rounded in the same way, cut-offs included. -/

namespace Smalltalk.Double

/-! ### Powers of a base as rational numbers -/

section Log

variable {b num den : ℕ}

theorem zpow_eq_div (b : ℕ) (e : ℤ) :
    (b : ℚ) ^ e = Nat.pow b e.toNat / Nat.pow b (-e).toNat := by
  rw [Nat.pow_eq, Nat.pow_eq, Nat.cast_pow, Nat.cast_pow]
  rcases le_total 0 e with h | h
  · have hneg : (-e).toNat = 0 := by omega
    rw [hneg, pow_zero, div_one, ← zpow_natCast, Int.toNat_of_nonneg h]
  · have hpos : e.toNat = 0 := by omega
    rw [hpos, pow_zero, one_div, ← zpow_natCast, Int.toNat_of_nonneg (by omega), zpow_neg, inv_inv]

theorem natPow_pos (hb : 0 < b) (n : ℕ) : 0 < Nat.pow b n := Nat.pow_pos hb

theorem cast_pow_pos (hb : 0 < b) (n : ℕ) : (0 : ℚ) < (Nat.pow b n : ℕ) := by
  exact_mod_cast natPow_pos hb n

/-- A quotient scaled by a power of the base, as integers have it. -/
theorem mul_zpow_eq_div (b num den : ℕ) (e : ℤ) :
    ((num * Nat.pow b e.toNat : ℕ) / (den * Nat.pow b (-e).toNat : ℕ) : ℚ) =
      num / den * (b : ℚ) ^ e := by
  rw [zpow_eq_div, Nat.cast_mul, Nat.cast_mul, mul_div_mul_comm]

/-- What `floorLog` compares. -/
theorem le_mul_pow_iff (hb : 0 < b) (hden : 0 < den) (e : ℤ) :
    den * Nat.pow b e.toNat ≤ num * Nat.pow b (-e).toNat ↔ (b : ℚ) ^ e ≤ num / den := by
  have hden' : (0 : ℚ) < den := by exact_mod_cast hden
  rw [zpow_eq_div, div_le_div_iff₀ (cast_pow_pos hb _) hden']
  norm_cast
  rw [mul_comm den]

/-- An estimate that is the logarithm or one more gives the logarithm. -/
theorem floorLog_eq_log (hb : 1 < b) (hnum : 0 < num) (hden : 0 < den) {estimate : ℤ}
    (h : Int.log b (num / den : ℚ) = estimate ∨ Int.log b (num / den : ℚ) = estimate - 1) :
    floorLog b num den estimate = Int.log b (num / den : ℚ) := by
  have hpos : (0 : ℚ) < num / den := by positivity
  have hle : den * Nat.pow b estimate.toNat ≤ num * Nat.pow b (-estimate).toNat ↔
      estimate ≤ Int.log b (num / den : ℚ) :=
    (le_mul_pow_iff (by omega) hden estimate).trans (Int.zpow_le_iff_le_log hb hpos)
  unfold floorLog
  simp only [hle]
  split <;> omega

/-- The logarithm of a quotient, from those of its parts. -/
theorem log_div (hb : 1 < b) {m n : ℕ} (hnum : b ^ m ≤ num) (hnum' : num < b ^ (m + 1))
    (hden : b ^ n ≤ den) (hden' : den < b ^ (n + 1)) :
    Int.log b (num / den : ℚ) = m - n ∨ Int.log b (num / den : ℚ) = m - n - 1 := by
  have hb0 : (0 : ℚ) < b := by exact_mod_cast (by omega : 0 < b)
  have hn : 0 < num := lt_of_lt_of_le (Nat.pow_pos (by omega)) hnum
  have hd : 0 < den := lt_of_lt_of_le (Nat.pow_pos (by omega)) hden
  have hd' : (0 : ℚ) < den := by exact_mod_cast hd
  have hpos : (0 : ℚ) < num / den := by positivity
  have hadd : ∀ (i : ℤ) (k : ℕ), (b : ℚ) ^ i * b ^ k = b ^ (i + k) := by
    intro i k
    rw [← zpow_natCast, ← zpow_add₀ hb0.ne']
  have hlow : (b : ℚ) ^ ((m : ℤ) - n - 1) ≤ num / den := by
    rw [le_div_iff₀ hd']
    calc (b : ℚ) ^ ((m : ℤ) - n - 1) * den ≤ (b : ℚ) ^ ((m : ℤ) - n - 1) * b ^ (n + 1) :=
          mul_le_mul_of_nonneg_left (by exact_mod_cast hden'.le) (by positivity)
      _ = b ^ m := by
          rw [hadd, ← zpow_natCast]
          congr 1
          push_cast
          ring
      _ ≤ num := by exact_mod_cast hnum
  have hhigh : (num / den : ℚ) < (b : ℚ) ^ ((m : ℤ) - n + 1) := by
    rw [div_lt_iff₀ hd']
    calc (num : ℚ) < b ^ (m + 1) := by exact_mod_cast hnum'
      _ = (b : ℚ) ^ ((m : ℤ) - n + 1) * b ^ n := by
          rw [hadd, ← zpow_natCast]
          congr 1
          push_cast
          ring
      _ ≤ (b : ℚ) ^ ((m : ℤ) - n + 1) * den :=
          mul_le_mul_of_nonneg_left (by exact_mod_cast hden) (by positivity)
  have h1 := (Int.zpow_le_iff_le_log hb hpos).mp hlow
  have h2 := (Int.lt_zpow_iff_log_lt hb hpos).mp hhigh
  omega

theorem floorLog_two (hnum : 0 < num) (hden : 0 < den) :
    floorLog 2 num den ((num.log2 : ℤ) - den.log2) = Int.log 2 (num / den : ℚ) := by
  refine floorLog_eq_log (by norm_num) hnum hden ?_
  exact log_div (by norm_num) (Nat.log2_self_le hnum.ne') Nat.lt_log2_self
    (Nat.log2_self_le hden.ne') Nat.lt_log2_self

end Log

/-! ### The nearest natural number -/

/-- The natural number nearest to a rational one, the even one of two. -/
def nearestNat (x : ℚ) : ℕ :=
  if 2 * (x - ⌊x⌋₊) < 1 ∨ (2 * (x - ⌊x⌋₊) = 1 ∧ ⌊x⌋₊ % 2 = 0) then ⌊x⌋₊ else ⌊x⌋₊ + 1

section Nearest

variable {x y : ℚ}

theorem roundQuotient_eq {n d : ℕ} (hd : 0 < d) : roundQuotient n d = nearestNat (n / d) := by
  have hd' : (0 : ℚ) < d := by exact_mod_cast hd
  have hrest : (n / d : ℚ) - (n / d : ℕ) = (n % d : ℕ) / d := by
    rw [eq_div_iff hd'.ne', sub_mul, div_mul_cancel₀ _ hd'.ne', sub_eq_iff_eq_add]
    exact_mod_cast (Nat.mod_add_div' n d).symm
  have hlt : 2 * ((n % d : ℕ) / d : ℚ) < 1 ↔ 2 * (n % d) < d := by
    rw [← mul_div_assoc, div_lt_one hd']
    norm_cast
  have heq : 2 * ((n % d : ℕ) / d : ℚ) = 1 ↔ 2 * (n % d) = d := by
    rw [← mul_div_assoc, div_eq_one_iff_eq hd'.ne']
    norm_cast
  unfold roundQuotient nearestNat
  simp only [Nat.floor_div_eq_div, hrest, hlt, heq]

theorem nearestNat_le (hx : 0 ≤ x) : (nearestNat x : ℚ) ≤ x + 1 / 2 := by
  have hfloor := Nat.floor_le hx
  unfold nearestNat
  split
  · linarith
  · next h =>
    rw [not_or, not_lt] at h
    push_cast
    linarith [h.1]

theorem le_nearestNat (x : ℚ) : x ≤ nearestNat x + 1 / 2 := by
  have hfloor := Nat.lt_floor_add_one x
  unfold nearestNat
  split
  · next h =>
    rcases h with h | ⟨h, -⟩ <;> linarith
  · push_cast
    linarith

@[simp] theorem nearestNat_natCast (n : ℕ) : nearestNat n = n := by
  simp [nearestNat]

theorem nearestNat_mono (hx : 0 ≤ x) (h : x ≤ y) : nearestNat x ≤ nearestNat y := by
  by_contra hlt
  have hstep : (nearestNat y : ℚ) + 1 ≤ nearestNat x := by exact_mod_cast not_le.mp hlt
  -- both numbers would be the one point halfway between the two results
  have heq : x = y := by linarith [nearestNat_le hx, le_nearestNat y]
  exact hlt (heq ▸ le_rfl)

theorem nearestNat_eq_zero (hx : 0 ≤ x) (h : 2 * x < 1) : nearestNat x = 0 := by
  have hlt : (nearestNat x : ℚ) < 1 := by linarith [nearestNat_le hx]
  have hlt' : nearestNat x < 1 := by exact_mod_cast hlt
  omega

/-! ### The nearest double -/

/-- The exponent of the doubles about a positive number. -/
def unitExponent (x : ℚ) : ℤ := max (Int.log 2 x - 52) minExponent

/-- The mantissa of the nearest of these doubles, before it is brought to its form. -/
def steps (x : ℚ) : ℕ := nearestNat (x / 2 ^ unitExponent x)

/-- The number that the nearest of these doubles stands for. -/
def rounded (x : ℚ) : ℚ := steps x * 2 ^ unitExponent x

/-- **The double nearest to a number:** zero for zero, and otherwise the nearest of the doubles
about it, infinite beyond the greatest exponent. -/
def nearest (negative : Bool) (x : ℚ) : Double :=
  if x = 0 then zero negative
  else
    let (m, q) := if steps x = 2 * fullMantissa then (fullMantissa, unitExponent x + 1)
      else (steps x, unitExponent x)
    if maxExponent < q then infinite negative else finite negative m q

/-- **Rounding a quotient depends on its value alone.** -/
theorem round_eq_nearest (s : Bool) {num den : ℕ} (hden : 0 < den) :
    round s num den = nearest s (num / den) := by
  have hden' : (den : ℚ) ≠ 0 := by exact_mod_cast hden.ne'
  unfold round nearest
  by_cases hnum : num = 0
  · simp [hnum]
  have hx : (num / den : ℚ) ≠ 0 := by
    rw [div_ne_zero_iff]
    exact ⟨by exact_mod_cast hnum, hden'⟩
  rw [if_neg hnum, if_neg hx]
  have hunit : max (floorLog 2 num den ((num.log2 : ℤ) - den.log2) - 52) minExponent =
      unitExponent (num / den) := by
    rw [floorLog_two (Nat.pos_of_ne_zero hnum) hden, unitExponent]
  have hsteps : ∀ q : ℤ, roundQuotient (num * Nat.pow 2 (-q).toNat) (den * Nat.pow 2 q.toNat) =
      nearestNat (num / den / 2 ^ q) := by
    intro q
    have hscale := mul_zpow_eq_div 2 num den (-q)
    rw [neg_neg, zpow_neg, ← div_eq_mul_inv, Nat.cast_ofNat] at hscale
    have hpos : 0 < den * Nat.pow 2 q.toNat := Nat.mul_pos hden (natPow_pos (by norm_num) _)
    rw [roundQuotient_eq hpos, hscale]
  dsimp only
  rw [hunit, hsteps]
  rfl

theorem zpow_two_pos (e : ℤ) : (0 : ℚ) < 2 ^ e := by positivity

theorem two_zpow_le {i j : ℤ} (h : i ≤ j) : (2 : ℚ) ^ i ≤ 2 ^ j :=
  zpow_le_zpow_right₀ (by norm_num) h

/-- Where the doubles about a number stand: below `2 ^ 53` units. -/
theorem lt_unit (hx : 0 < x) : x < 2 ^ (unitExponent x + 53) := by
  refine (Int.lt_zpow_iff_log_lt (b := 2) (by norm_num) hx).mpr ?_
  have : Int.log 2 x - 52 ≤ unitExponent x := le_max_left _ _
  omega

/-- Above the least exponent a number has at least `2 ^ 52` units. -/
theorem unit_le (hx : 0 < x) (h : minExponent < unitExponent x) :
    2 ^ (unitExponent x + 52) ≤ x := by
  refine (Int.zpow_le_iff_le_log (b := 2) (by norm_num) hx).mpr ?_
  have : unitExponent x = Int.log 2 x - 52 := by
    unfold unitExponent at h ⊢
    omega
  omega

theorem steps_le (hx : 0 < x) : steps x ≤ 2 * fullMantissa := by
  have h : x / 2 ^ unitExponent x ≤ (2 * fullMantissa : ℕ) := by
    rw [div_le_iff₀ (zpow_two_pos _)]
    refine (lt_unit hx).le.trans ?_
    rw [zpow_add₀ (by norm_num), mul_comm]
    norm_num [fullMantissa]
  have := nearestNat_mono (by positivity) h
  rwa [nearestNat_natCast] at this

theorem le_steps (hx : 0 < x) (h : minExponent < unitExponent x) : fullMantissa ≤ steps x := by
  have h : ((fullMantissa : ℕ) : ℚ) ≤ x / 2 ^ unitExponent x := by
    rw [le_div_iff₀ (zpow_two_pos _)]
    refine le_trans ?_ (unit_le hx h)
    rw [zpow_add₀ (by norm_num), mul_comm]
    norm_num [fullMantissa]
  have := nearestNat_mono (by positivity) h
  rwa [nearestNat_natCast] at this

theorem rounded_le (hx : 0 < x) : rounded x ≤ 2 ^ (unitExponent x + 53) := by
  rw [zpow_add₀ (by norm_num), mul_comm, rounded]
  refine mul_le_mul_of_nonneg_right ?_ (zpow_two_pos _).le
  have : (steps x : ℚ) ≤ (2 * fullMantissa : ℕ) := by exact_mod_cast steps_le hx
  refine this.trans ?_
  norm_num [fullMantissa]

theorem le_rounded (hx : 0 < x) (h : minExponent < unitExponent x) :
    2 ^ (unitExponent x + 52) ≤ rounded x := by
  rw [zpow_add₀ (by norm_num), mul_comm, rounded]
  refine mul_le_mul_of_nonneg_right ?_ (zpow_two_pos _).le
  have : ((fullMantissa : ℕ) : ℚ) ≤ steps x := by exact_mod_cast le_steps hx h
  refine le_trans ?_ this
  norm_num [fullMantissa]

/-- **Rounding keeps the order.** -/
theorem rounded_mono (hx : 0 < x) (h : x ≤ y) : rounded x ≤ rounded y := by
  have hy : 0 < y := hx.trans_le h
  have hlog : Int.log 2 x ≤ Int.log 2 y := Int.log_mono_right hx h
  have hunit : unitExponent x ≤ unitExponent y := max_le_max_right _ (by omega)
  rcases hunit.eq_or_lt with heq | hlt
  · -- both are rounded to multiples of one unit
    have hdiv : x / 2 ^ unitExponent x ≤ y / 2 ^ unitExponent x :=
      div_le_div_of_nonneg_right h (zpow_two_pos _).le
    have hsteps : steps x ≤ steps y := by
      unfold steps
      rw [← heq]
      exact nearestNat_mono (by positivity) hdiv
    unfold rounded
    rw [← heq]
    exact mul_le_mul_of_nonneg_right (by exact_mod_cast hsteps) (zpow_two_pos _).le
  · -- a power of two stands between them
    have hmin : minExponent < unitExponent y := lt_of_le_of_lt (le_max_right _ _) hlt
    exact (rounded_le hx).trans ((two_zpow_le (by omega)).trans (le_rounded hy hmin))

/-! ### Numbers that are doubles -/

theorem unitExponent_of_canonical {s : Bool} {m : ℕ} {q : ℤ} (hm : 0 < m)
    (h : Canonical (finite s m q)) : unitExponent (m * 2 ^ q) = q := by
  obtain ⟨hlt, hmin, -, hfull⟩ := h
  have hpos : (0 : ℚ) < m * 2 ^ q := mul_pos (by exact_mod_cast hm) (zpow_two_pos q)
  have hupper : Int.log 2 (m * 2 ^ q : ℚ) < q + 53 := by
    refine (Int.lt_zpow_iff_log_lt (b := 2) (by norm_num) hpos).mp ?_
    rw [zpow_add₀ (by norm_num), mul_comm]
    refine mul_lt_mul_of_pos_left ?_ (zpow_two_pos q)
    have : (m : ℚ) < (2 * fullMantissa : ℕ) := by exact_mod_cast hlt
    refine this.trans_le ?_
    norm_num [fullMantissa]
  unfold unitExponent
  rcases hfull with hq | hfull
  · omega
  · have hlower : q + 52 ≤ Int.log 2 (m * 2 ^ q : ℚ) := by
      refine (Int.zpow_le_iff_le_log (b := 2) (by norm_num) hpos).mp ?_
      rw [zpow_add₀ (by norm_num), mul_comm]
      refine mul_le_mul_of_nonneg_right ?_ (zpow_two_pos q).le
      have : ((fullMantissa : ℕ) : ℚ) ≤ m := by exact_mod_cast hfull
      refine le_trans ?_ this
      norm_num [fullMantissa]
    omega

theorem steps_of_canonical {s : Bool} {m : ℕ} {q : ℤ} (hm : 0 < m)
    (h : Canonical (finite s m q)) : steps (m * 2 ^ q) = m := by
  unfold steps
  rw [unitExponent_of_canonical hm h, mul_div_cancel_right₀ _ (zpow_two_pos q).ne',
    nearestNat_natCast]

theorem rounded_of_canonical {s : Bool} {m : ℕ} {q : ℤ} (hm : 0 < m)
    (h : Canonical (finite s m q)) : rounded (m * 2 ^ q) = m * 2 ^ q := by
  unfold rounded
  rw [steps_of_canonical hm h, unitExponent_of_canonical hm h]

/-- **A number that is a double is rounded to itself.** -/
theorem nearest_of_canonical {s : Bool} {m : ℕ} {q : ℤ} (h : Canonical (finite s m q)) :
    nearest s (m * 2 ^ q) = finite s m q := by
  rcases m.eq_zero_or_pos with rfl | hm
  · have hq : q = minExponent := h.2.2.2.resolve_right (by decide)
    simp [nearest, zero, hq]
  · have hne : (m * 2 ^ q : ℚ) ≠ 0 := (mul_pos (by exact_mod_cast hm) (zpow_two_pos q)).ne'
    have hcarry : m ≠ 2 * fullMantissa := h.1.ne
    unfold nearest
    rw [if_neg hne, steps_of_canonical hm h, unitExponent_of_canonical hm h, if_neg hcarry]
    exact if_neg (not_lt.mpr h.2.2.1)

/-- **What comes out has its form.** -/
theorem canonical_nearest (s : Bool) (hx : 0 ≤ x) : Canonical (nearest s x) := by
  unfold nearest
  split
  · exact ⟨by decide, le_rfl, by decide, Or.inl rfl⟩
  next hne =>
    have hpos : 0 < x := lt_of_le_of_ne hx (Ne.symm hne)
    have hmin : minExponent ≤ unitExponent x := le_max_right _ _
    split
    next m q hpair =>
      split
      · trivial
      · next hq =>
        split at hpair <;> obtain ⟨rfl, rfl⟩ := Prod.mk.inj hpair
        · exact ⟨by decide, by omega, by omega, Or.inr le_rfl⟩
        · next hcarry =>
          refine ⟨lt_of_le_of_ne (steps_le hpos) hcarry, hmin, by omega, ?_⟩
          rcases hmin.eq_or_lt with heq | hlt
          · exact Or.inl heq.symm
          · exact Or.inr (le_steps hpos hlt)

/-- The sign is carried through. -/
theorem nearest_sign (s : Bool) {m : ℕ} {q : ℤ} (h : nearest false x = finite false m q) :
    nearest s x = finite s m q := by
  unfold nearest at h ⊢
  split at h
  · next h0 =>
    obtain ⟨-, rfl, rfl⟩ := finite.inj h
    exact if_pos h0
  next h0 =>
    rw [if_neg h0]
    split at h
    next m' q' hpair =>
      split at h
      · cases h
      · next hq =>
        obtain ⟨-, rfl, rfl⟩ := finite.inj h
        exact if_neg hq

/-- What a finite result stands for is the rounded number. -/
theorem rounded_of_nearest {s t : Bool} {m : ℕ} {q : ℤ} (hx : x ≠ 0)
    (h : nearest s x = finite t m q) : rounded x = m * 2 ^ q := by
  unfold nearest at h
  rw [if_neg hx] at h
  unfold rounded
  split at h
  next m' q' hpair =>
    split at h
    · cases h
    obtain ⟨rfl, rfl, rfl⟩ := finite.inj h
    split at hpair
    · next hcarry =>
      obtain ⟨rfl, rfl⟩ := Prod.mk.inj hpair
      rw [hcarry, zpow_add₀ (by norm_num)]
      push_cast
      ring
    · obtain ⟨rfl, rfl⟩ := Prod.mk.inj hpair
      rfl

/-! ### The cut-offs -/

/-- From `2 ^ 1024` on everything is infinite. -/
theorem nearest_eq_infinite (s : Bool) (h : 2 ^ 1024 ≤ x) : nearest s x = infinite s := by
  have hx : 0 < x := lt_of_lt_of_le (by positivity) h
  have hlog : 1024 ≤ Int.log 2 x :=
    (Int.zpow_le_iff_le_log (b := 2) (by norm_num) hx).mp (by rwa [Nat.cast_ofNat, zpow_ofNat])
  have hunit : maxExponent < unitExponent x :=
    lt_of_lt_of_le (by unfold maxExponent; omega) (le_max_left _ _)
  unfold nearest
  rw [if_neg hx.ne']
  split
  next m q hpair =>
    refine if_pos ?_
    split at hpair <;> obtain ⟨rfl, rfl⟩ := Prod.mk.inj hpair <;> omega

/-- Below half of the least double everything is zero. -/
theorem nearest_eq_zero (s : Bool) (hx : 0 ≤ x) (h : x * 2 ^ 1075 < 1) : nearest s x = zero s := by
  unfold nearest
  split
  · rfl
  next hne =>
    have hpos : 0 < x := lt_of_le_of_ne hx (Ne.symm hne)
    have hlog : Int.log 2 x < -1075 := by
      refine (Int.lt_zpow_iff_log_lt (b := 2) (by norm_num) hpos).mp ?_
      rw [zpow_neg, ← one_div, Nat.cast_ofNat, lt_div_iff₀ (by positivity)]
      exact_mod_cast h
    have hunit : unitExponent x = minExponent := max_eq_right (by unfold minExponent; omega)
    have hsteps : steps x = 0 := by
      refine nearestNat_eq_zero (by positivity) ?_
      rw [hunit, minExponent, zpow_neg, div_inv_eq_mul]
      rwa [zpow_ofNat, mul_left_comm, ← pow_succ']
    rw [hsteps, hunit]
    rfl

/-! ### Decimal numerals -/

/-- How the length of a numeral bounds its number. -/
theorem toDigits_length_bounds {n : ℕ} (hn : 0 < n) :
    10 ^ ((Nat.toDigits 10 n).length - 1) ≤ n ∧ n < 10 ^ (Nat.toDigits 10 n).length := by
  have hlen := Nat.length_toDigits_pos (b := 10) (n := n)
  constructor
  · by_contra hlt
    rcases Nat.eq_zero_or_pos ((Nat.toDigits 10 n).length - 1) with h0 | hpos
    · rw [h0] at hlt
      omega
    · have := (Nat.length_toDigits_le_iff (b := 10) (by norm_num) hpos).mpr (not_le.mp hlt)
      omega
  · exact (Nat.length_toDigits_le_iff (b := 10) (by norm_num) hlen).mp le_rfl

/-- The logarithm of a decimal numeral. -/
theorem log_decimal {digits : ℕ} (hd : 0 < digits) (exponent : ℤ) :
    Int.log 10 (digits * 10 ^ exponent : ℚ) =
      (Nat.toDigits 10 digits).length - 1 + exponent := by
  have hpos : (0 : ℚ) < digits * 10 ^ exponent := by positivity
  obtain ⟨hlow, hhigh⟩ := toDigits_length_bounds hd
  have hlen := Nat.length_toDigits_pos (b := 10) (n := digits)
  generalize (Nat.toDigits 10 digits).length = len at *
  have h1 : len - 1 + exponent ≤ Int.log 10 (digits * 10 ^ exponent : ℚ) := by
    refine (Int.zpow_le_iff_le_log (b := 10) (by norm_num) hpos).mp ?_
    rw [Nat.cast_ofNat, zpow_add₀ (by norm_num)]
    refine mul_le_mul_of_nonneg_right ?_ (by positivity)
    rw [show (len : ℤ) - 1 = ((len - 1 : ℕ) : ℤ) by omega, zpow_natCast]
    exact_mod_cast hlow
  have h2 : Int.log 10 (digits * 10 ^ exponent : ℚ) < len + exponent := by
    refine (Int.lt_zpow_iff_log_lt (b := 10) (by norm_num) hpos).mp ?_
    rw [Nat.cast_ofNat, zpow_add₀ (by norm_num)]
    refine mul_lt_mul_of_pos_right ?_ (by positivity)
    rw [zpow_natCast]
    exact_mod_cast hhigh
  omega

/-- **Decimal numerals are rounded to the nearest double;** the cut-offs change nothing. -/
theorem ofDecimal_eq_nearest (s : Bool) (digits : ℕ) (exponent : ℤ) :
    ofDecimal s digits exponent = nearest s (digits * 10 ^ exponent) := by
  unfold ofDecimal
  dsimp only
  rcases digits.eq_zero_or_pos with rfl | hd
  · simp [nearest]
  have hpos : (0 : ℚ) < digits * 10 ^ exponent := by positivity
  have hlog := log_decimal hd exponent
  split
  · next h =>
    have hlow : (2 : ℕ) ^ 1075 ≤ 10 ^ 331 := by decide +kernel
    have hsize : Int.log 10 (digits * 10 ^ exponent : ℚ) < -331 := by
      rcases h with h | h <;> omega
    have hlt := (Int.lt_zpow_iff_log_lt (by norm_num) hpos).mpr hsize
    refine (nearest_eq_zero s hpos.le ?_).symm
    calc (digits * 10 ^ exponent : ℚ) * 2 ^ 1075 < (10 ^ 331)⁻¹ * 2 ^ 1075 :=
          mul_lt_mul_of_pos_right (by simpa using hlt) (by positivity)
      _ ≤ (10 ^ 331)⁻¹ * 10 ^ 331 :=
          mul_le_mul_of_nonneg_left (by exact_mod_cast hlow) (by positivity)
      _ = 1 := inv_mul_cancel₀ (by positivity)
  · split
    · next h =>
      have hhigh : (2 : ℕ) ^ 1024 ≤ 10 ^ 310 := by decide +kernel
      have hsize : 310 ≤ Int.log 10 (digits * 10 ^ exponent : ℚ) := by omega
      have hle := (Int.zpow_le_iff_le_log (by norm_num) hpos).mpr hsize
      refine (nearest_eq_infinite s (le_trans ?_ hle)).symm
      rw [Nat.cast_ofNat, zpow_ofNat]
      exact_mod_cast hhigh
    · have hscale := mul_zpow_eq_div 10 digits 1 exponent
      rw [Nat.one_mul, Nat.cast_one, div_one, Nat.cast_ofNat] at hscale
      rw [round_eq_nearest s (natPow_pos (by norm_num) _), hscale]

end Nearest

/-! ### Exact arithmetic -/

section Exact

variable {k n : ℕ}

/-- The product of two finite doubles is the double nearest to the exact product. -/
theorem mul_eq_nearest (s t : Bool) (m n : ℕ) (q r : ℤ) :
    finite s m q * finite t n r = nearest (s != t) (m * 2 ^ q * (n * 2 ^ r)) := by
  have hscale := mul_zpow_eq_div 2 (m * n) 1 (q + r)
  rw [Nat.one_mul, Nat.cast_one, div_one, Nat.cast_mul m n, Nat.cast_ofNat,
    zpow_add₀ (by norm_num)] at hscale
  change round _ _ _ = _
  rw [round_eq_nearest _ (natPow_pos (by norm_num) _), hscale, mul_mul_mul_comm]

/-- The sum of two finite doubles that are not negative is the double nearest to the exact sum. -/
theorem add_eq_nearest (m n : ℕ) (q r : ℤ) :
    finite false m q + finite false n r = nearest false (m * 2 ^ q + n * 2 ^ r) := by
  obtain ⟨e, he⟩ : ∃ e, e = min q r := ⟨_, rfl⟩
  obtain ⟨sum, hsum⟩ : ∃ sum : ℕ, sum = m * Nat.pow 2 (q - e).toNat + n * Nat.pow 2 (r - e).toNat :=
    ⟨_, rfl⟩
  have hpart : ∀ (m : ℕ) {q : ℤ}, e ≤ q →
      ((m * Nat.pow 2 (q - e).toNat : ℕ) : ℚ) * 2 ^ e = m * 2 ^ q := by
    intro m q hq
    rw [Nat.cast_mul, Nat.pow_eq, Nat.cast_pow, Nat.cast_ofNat, ← zpow_natCast,
      Int.toNat_of_nonneg (by omega), mul_assoc, ← zpow_add₀ (by norm_num), sub_add_cancel]
  have hvalue : (sum : ℚ) * 2 ^ e = m * 2 ^ q + n * 2 ^ r := by
    rw [hsum, Nat.cast_add, add_mul, hpart m (by omega), hpart n (by omega)]
  have hscale := mul_zpow_eq_div 2 sum 1 e
  rw [Nat.one_mul, Nat.cast_one, div_one, Nat.cast_ofNat, hvalue] at hscale
  have hadd : finite false m q + finite false n r = if (sum : ℤ) = 0 then zero false
      else round (decide ((sum : ℤ) < 0)) ((sum : ℤ).natAbs * Nat.pow 2 e.toNat)
        (Nat.pow 2 (-e).toNat) := by
    rw [hsum, he]
    rfl
  rw [hadd, Int.natAbs_natCast, decide_eq_false (by omega),
    round_eq_nearest _ (natPow_pos (by norm_num) _), hscale]
  split
  · next h =>
    have h0 : sum = 0 := by exact_mod_cast h
    rw [← hvalue, h0]
    simp [nearest]
  · rfl

/-- Every natural number of at most 53 bits is a double. -/
theorem exists_canonical_natCast (s : Bool) (hn : n < 2 * fullMantissa) :
    ∃ (m : ℕ) (q : ℤ), Canonical (finite s m q) ∧ (m * 2 ^ q : ℚ) = n := by
  rcases n.eq_zero_or_pos with rfl | hpos
  · exact ⟨0, minExponent, ⟨by decide, le_rfl, by decide, Or.inl rfl⟩, by simp⟩
  · have hlog : n.log2 < 53 := (Nat.log2_lt hpos.ne').mpr hn
    have hscale : ∀ k, 2 ^ k * 2 ^ (52 - n.log2) = 2 ^ (k + (52 - n.log2)) := fun k =>
      (Nat.pow_add 2 _ _).symm
    refine ⟨n * 2 ^ (52 - n.log2), n.log2 - 52, ⟨?_, ?_, ?_, Or.inr ?_⟩, ?_⟩
    · calc n * 2 ^ (52 - n.log2) < 2 ^ (n.log2 + 1) * 2 ^ (52 - n.log2) :=
            Nat.mul_lt_mul_of_pos_right Nat.lt_log2_self (by positivity)
        _ = 2 * fullMantissa := by
            rw [hscale, show n.log2 + 1 + (52 - n.log2) = 53 by omega]
            rfl
    · unfold minExponent
      omega
    · unfold maxExponent
      omega
    · calc fullMantissa = 2 ^ n.log2 * 2 ^ (52 - n.log2) := by
            rw [hscale, show n.log2 + (52 - n.log2) = 52 by omega]
            rfl
        _ ≤ n * 2 ^ (52 - n.log2) := Nat.mul_le_mul_right _ (Nat.log2_self_le hpos.ne')
    · rw [Nat.cast_mul, Nat.cast_pow, Nat.cast_ofNat, mul_assoc, ← zpow_natCast,
        ← zpow_add₀ (by norm_num), show ((52 - n.log2 : ℕ) : ℤ) + (n.log2 - 52) = 0 by omega,
        zpow_zero, mul_one]

theorem ofNat_eq_nearest (n : ℕ) : ofNat n = nearest false n := by
  unfold ofNat
  rw [round_eq_nearest false Nat.one_pos, Nat.cast_one, div_one]

/-- The double of a natural number of at most 53 bits stands for it. -/
theorem exists_ofNat_eq (hn : n < 2 * fullMantissa) : ∃ (m : ℕ) (q : ℤ),
    ofNat n = finite false m q ∧ Canonical (finite false m q) ∧ (m * 2 ^ q : ℚ) = n := by
  obtain ⟨m, q, hcanonical, hvalue⟩ := exists_canonical_natCast false hn
  exact ⟨m, q, by rw [ofNat_eq_nearest, ← hvalue, nearest_of_canonical hcanonical], hcanonical,
    hvalue⟩

/-- A product of natural numbers is rounded once. -/
theorem ofNat_mul (hk : k < 2 * fullMantissa) (hn : n < 2 * fullMantissa) :
    ofNat k * ofNat n = ofNat (k * n) := by
  obtain ⟨m, q, heq, -, hvalue⟩ := exists_ofNat_eq hk
  obtain ⟨m', q', heq', -, hvalue'⟩ := exists_ofNat_eq hn
  rw [heq, heq', mul_eq_nearest, hvalue, hvalue', ofNat_eq_nearest, Nat.cast_mul]
  rfl

/-- A sum of natural numbers is rounded once. -/
theorem ofNat_add (hk : k < 2 * fullMantissa) (hn : n < 2 * fullMantissa) :
    ofNat k + ofNat n = ofNat (k + n) := by
  obtain ⟨m, q, heq, -, hvalue⟩ := exists_ofNat_eq hk
  obtain ⟨m', q', heq', -, hvalue'⟩ := exists_ofNat_eq hn
  rw [heq, heq', add_eq_nearest, hvalue, hvalue', ofNat_eq_nearest, Nat.cast_add]

end Exact

end Smalltalk.Double
