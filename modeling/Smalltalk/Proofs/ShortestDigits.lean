import Mathlib.Data.List.TakeWhile
import Smalltalk.Double.Notation
import Smalltalk.Proofs.Rounding

/-! # The digits a double is written with

The search for few digits returns a numeral that reads back, whatever it finds, since all digits of
the double stand at its end.

* `Decimal.toDouble_shortest`: the numeral found reads back as the double.
* `Decimal.shortest_of_natCast`: for a natural number of at most 53 bits it is that number, and no
  digit stands behind the point.
* `Double.toDigits_eq_significant`: only zeros are left out of the digits.
* `Double.toText_nearest_natCast`: so such a number is written as its decimal numeral. -/

namespace Smalltalk

open Double

namespace Decimal

/-- The number a numeral stands for. -/
def value (d : Decimal) : ℚ := d.digits * 10 ^ d.exponent

variable {m n : ℕ} {q : ℤ}

theorem toDouble_eq_nearest (d : Decimal) (s : Bool) : d.toDouble s = nearest s d.value :=
  ofDecimal_eq_nearest s d.digits d.exponent

theorem value_exact (m : ℕ) (q : ℤ) : (exact m q).value = m * 2 ^ q := by
  unfold exact value
  split
  · next h =>
    obtain ⟨k, rfl⟩ := Int.eq_ofNat_of_zero_le h
    simp
  · next h =>
    obtain ⟨k, rfl⟩ : ∃ k : ℕ, q = -k := ⟨q.natAbs, by omega⟩
    have hten : (10 : ℚ) ^ k = 2 ^ k * 5 ^ k := by rw [← mul_pow]; norm_num
    simp only [neg_neg, Int.toNat_natCast, Nat.pow_eq, Nat.cast_mul, Nat.cast_pow, Nat.cast_ofNat,
      zpow_neg, zpow_natCast, hten]
    field_simp

/-! ### The search -/

theorem floorLog_ten {num den : ℕ} (hnum : 0 < num) (hden : 0 < den) :
    floorLog 10 num den ((Nat.toDigits 10 num).length - (Nat.toDigits 10 den).length) =
      Int.log 10 (num / den : ℚ) := by
  obtain ⟨hn, hn'⟩ := toDigits_length_bounds hnum
  obtain ⟨hd, hd'⟩ := toDigits_length_bounds hden
  have hlen := Nat.length_toDigits_pos (b := 10) (n := num)
  have hlen' := Nat.length_toDigits_pos (b := 10) (n := den)
  have hlog := log_div (by norm_num) hn (by rwa [Nat.sub_add_cancel hlen]) hd
    (by rwa [Nat.sub_add_cancel hlen'])
  refine floorLog_eq_log (by norm_num) hnum hden ?_
  omega

/-- The numeral with `n + 1` digits that the search takes, if one of them reads back. -/
def candidate (m : ℕ) (q : ℤ) (n : ℕ) : Option Decimal :=
  (neighbours (m * Nat.pow 2 q.toNat) (Nat.pow 2 (-q).toNat) (Int.log 10 (m * 2 ^ q : ℚ) - n)).find?
    fun d => d.toDouble false = finite false m q

theorem shortest_eq (hm : 0 < m) (q : ℤ) :
    shortest m q = ((List.range 17).findSome? (candidate m q)).getD (exact m q) := by
  have hscale := mul_zpow_eq_div 2 m 1 q
  rw [Nat.one_mul, Nat.cast_one, div_one, Nat.cast_ofNat] at hscale
  unfold shortest
  dsimp only
  rw [floorLog_ten (Nat.mul_pos hm (natPow_pos (by norm_num) _)) (natPow_pos (by norm_num) _),
    hscale]
  rfl

theorem exponent_of_mem_neighbours {num den : ℕ} {unit : ℤ} {d : Decimal}
    (h : d ∈ neighbours num den unit) : d.exponent = unit := by
  unfold neighbours at h
  dsimp only at h
  split at h <;> rcases List.mem_pair.mp h with rfl | rfl <;> rfl

theorem candidate_eq_some {d : Decimal} (h : candidate m q n = some d) :
    d.toDouble false = finite false m q ∧ d.exponent = Int.log 10 (m * 2 ^ q : ℚ) - n :=
  ⟨of_decide_eq_true (List.find?_some h :),
    exponent_of_mem_neighbours (List.mem_of_find?_eq_some h)⟩

/-- **The numeral found reads back as the double.** -/
theorem toDouble_shortest (hm : 0 < m) (h : Canonical (finite false m q)) :
    (shortest m q).toDouble false = finite false m q := by
  rw [shortest_eq hm]
  rcases hfound : (List.range 17).findSome? (candidate m q) with _ | d
  · rw [Option.getD_none, toDouble_eq_nearest, value_exact, nearest_of_canonical h]
  · obtain ⟨_, -, hcandidate⟩ := List.exists_of_findSome?_eq_some hfound
    exact (candidate_eq_some hcandidate).1

theorem digits_shortest_pos (hm : 0 < m) (h : Canonical (finite false m q)) :
    0 < (shortest m q).digits := by
  by_contra hzero
  have hread := toDouble_shortest hm h
  rw [toDouble_eq_nearest, value, Nat.eq_zero_of_not_pos hzero, Nat.cast_zero, zero_mul,
    nearest, if_pos rfl] at hread
  have := (finite.inj hread).2.1
  omega

/-! ### Natural numbers -/

/-- At the unit 1 a natural number is one of its own neighbours. -/
theorem mem_neighbours_natCast {num den : ℕ} (hden : 0 < den) (h : (num / den : ℚ) = n) :
    ⟨n, 0⟩ ∈ neighbours num den 0 := by
  have hden' : (den : ℚ) ≠ 0 := by exact_mod_cast hden.ne'
  have hnum : num = n * den := by
    rw [div_eq_iff hden'] at h
    exact_mod_cast h
  have hquot : num * Nat.pow 10 0 / (den * Nat.pow 10 0) = n := by
    rw [hnum]
    exact Nat.div_eq_of_eq_mul_left (by simpa using hden) (by simp)
  unfold neighbours
  simp only [Int.neg_zero, Int.toNat_zero, hquot]
  split <;> simp

/-- A natural number is told from every other one by its double. -/
theorem eq_of_nearest_natCast {k : ℕ} (hn : 0 < n) (hlt : n < 2 * fullMantissa)
    (hvalue : (m * 2 ^ q : ℚ) = n) (h : nearest false k = finite false m q) : k = n := by
  have hk : k ≠ 0 := by
    rintro rfl
    rw [Nat.cast_zero, nearest, if_pos rfl] at h
    obtain ⟨-, rfl, -⟩ := finite.inj h
    rw [Nat.cast_zero, zero_mul] at hvalue
    have : n = 0 := by exact_mod_cast hvalue.symm
    omega
  have hrounded : rounded k = n := by
    rw [rounded_of_nearest (by exact_mod_cast hk) h, hvalue]
  have hklt : k < 2 * fullMantissa := by
    by_contra hge
    -- `2 ^ 53` is a double, and rounding keeps the order
    have hfull : rounded (fullMantissa * 2 ^ (1 : ℤ)) = fullMantissa * 2 ^ (1 : ℤ) :=
      rounded_of_canonical (s := false) (by decide) ⟨by decide, by decide, by decide, Or.inr le_rfl⟩
    have hle : ((fullMantissa : ℕ) * 2 ^ (1 : ℤ) : ℚ) ≤ k := by
      rw [zpow_one, mul_comm]
      exact_mod_cast not_lt.mp hge
    have hmono := rounded_mono (by norm_num [fullMantissa]) hle
    rw [hfull, hrounded, zpow_one, mul_comm] at hmono
    have : 2 * fullMantissa ≤ n := by exact_mod_cast hmono
    omega
  obtain ⟨m', q', heq, -, hvalue'⟩ := exists_ofNat_eq hklt
  rw [ofNat_eq_nearest, h] at heq
  obtain ⟨-, rfl, rfl⟩ := finite.inj heq
  exact_mod_cast hvalue'.symm.trans hvalue

/-- **For a natural number the digits are its own,** none of them behind the point. -/
theorem shortest_of_natCast (hn : 0 < n) (hlt : n < 2 * fullMantissa)
    (hvalue : (m * 2 ^ q : ℚ) = n) (hm : 0 < m) (h : Canonical (finite false m q)) :
    0 ≤ (shortest m q).exponent ∧
      (shortest m q).digits * 10 ^ (shortest m q).exponent.toNat = n := by
  have hlog : Int.log 10 (n : ℚ) = Nat.log 10 n := Int.log_natCast 10 n
  have hsize : Nat.log 10 n < 17 :=
    Nat.log_lt_of_lt_pow hn.ne' (hlt.trans (by norm_num [fullMantissa]))
  have hunit : candidate m q (Nat.log 10 n) ≠ none := by
    have hscale := mul_zpow_eq_div 2 m 1 q
    rw [Nat.one_mul, Nat.cast_one, div_one, Nat.cast_ofNat, hvalue] at hscale
    have hmem := mem_neighbours_natCast (natPow_pos (by norm_num) _) hscale
    unfold candidate
    rw [hvalue, hlog, sub_self]
    intro hnone
    refine List.find?_eq_none.mp hnone _ hmem (decide_eq_true ?_)
    rw [toDouble_eq_nearest, value, zpow_zero, mul_one, ← hvalue, nearest_of_canonical h]
  have hfound : ∃ d, (List.range 17).findSome? (candidate m q) = some d ∧ 0 ≤ d.exponent := by
    rcases hfind : (List.range 17).findSome? (candidate m q) with _ | d
    · exact absurd (List.findSome?_eq_none_iff.mp hfind _ (List.mem_range.mpr hsize)) hunit
    obtain ⟨l₁, k, l₂, hsplit, hk, hnone⟩ := List.findSome?_eq_some_iff.mp hfind
    refine ⟨d, rfl, ?_⟩
    rw [(candidate_eq_some hk).2, hvalue, hlog]
    have hmem : Nat.log 10 n ∈ List.range 17 := List.mem_range.mpr hsize
    have hsorted : (List.range 17).Pairwise (· < ·) := List.pairwise_lt_range
    rw [hsplit] at hmem hsorted
    rcases List.mem_append.mp hmem with hmem | hmem
    · exact absurd (hnone _ hmem) hunit
    rcases List.mem_cons.mp hmem with heq | hmem
    · omega
    · have := List.rel_of_pairwise_cons (List.pairwise_append.mp hsorted).2.1 hmem
      omega
  obtain ⟨d, hfound, hexp⟩ := hfound
  have hshortest : shortest m q = d := by rw [shortest_eq hm, hfound, Option.getD_some]
  have hread := toDouble_shortest hm h
  rw [hshortest, toDouble_eq_nearest, value] at hread
  rw [hshortest]
  refine ⟨hexp, eq_of_nearest_natCast hn hlt hvalue ?_⟩
  rw [← Int.toNat_of_nonneg hexp, zpow_natCast] at hread
  exact_mod_cast hread

end Decimal

/-! ### Digits without trailing zeros -/

namespace Double

/-- **Only zeros are left out of the digits.** -/
theorem toDigits_eq_significant (n : ℕ) : ∃ zeros,
    Nat.toDigits 10 n = significant n ++ List.replicate zeros '0' := by
  have hzeros : (Nat.toDigits 10 n).reverse.takeWhile (· = '0') =
      List.replicate ((Nat.toDigits 10 n).reverse.takeWhile (· = '0')).length '0' := by
    refine List.eq_replicate_iff.mpr ⟨rfl, fun c hc => ?_⟩
    simpa using List.mem_takeWhile_imp hc
  refine ⟨((Nat.toDigits 10 n).reverse.takeWhile (· = '0')).length, ?_⟩
  calc Nat.toDigits 10 n
      = ((Nat.toDigits 10 n).reverse.takeWhile (· = '0') ++
          (Nat.toDigits 10 n).reverse.dropWhile (· = '0')).reverse := by
        rw [List.takeWhile_append_dropWhile, List.reverse_reverse]
    _ = significant n ++ ((Nat.toDigits 10 n).reverse.takeWhile (· = '0')).reverse := by
        rw [List.reverse_append, significant]
    _ = significant n ++
          List.replicate ((Nat.toDigits 10 n).reverse.takeWhile (· = '0')).length '0' := by
        rw [hzeros, List.reverse_replicate, List.length_replicate]

theorem isDigit_of_mem_significant {n : ℕ} {c : Char} (h : c ∈ significant n) : c.isDigit := by
  obtain ⟨zeros, hsplit⟩ := toDigits_eq_significant n
  refine Nat.isDigit_of_mem_toDigits (b := 10) (n := n) (by norm_num) (by norm_num) ?_
  rw [hsplit]
  exact List.mem_append_left _ h

/-! ### The text of a natural number -/

section NatCast

variable {n : ℕ} {d : Decimal}

theorem toDigits_mul_pow (hn : 0 < n) (k : ℕ) :
    Nat.toDigits 10 (n * 10 ^ k) = Nat.toDigits 10 n ++ List.replicate k '0' := by
  induction k with
  | zero => simp
  | succ k ih =>
    have hstep : n * 10 ^ (k + 1) = 10 * (n * 10 ^ k) + 0 := by ring
    rw [hstep, ← Nat.toDigits_append_toDigits (by norm_num) (by positivity) (by norm_num), ih,
      List.replicate_succ', List.append_assoc]
    rfl

/-- A numeral without digits behind the point is written as the number it is. -/
theorem magnitudeText_of_natCast (hd : 0 < d.digits) (hexp : 0 ≤ d.exponent)
    (hvalue : d.digits * 10 ^ d.exponent.toNat = n) (hn : n < 10 ^ 21) :
    magnitudeText d = Text.ofNat n := by
  obtain ⟨zeros, hsplit⟩ := toDigits_eq_significant d.digits
  have hdigits : Nat.toDigits 10 n =
      significant d.digits ++ List.replicate (zeros + d.exponent.toNat) '0' := by
    rw [← hvalue, toDigits_mul_pow hd, hsplit, List.append_assoc, List.replicate_append_replicate]
  have hlen := (Nat.length_toDigits_le_iff (by norm_num) (by norm_num)).mpr hn
  have hlength := congrArg List.length hsplit
  have hlength' := congrArg List.length hdigits
  have hpos := Nat.length_toDigits_pos (b := 10) (n := d.digits)
  rw [List.length_append, List.length_replicate] at hlength hlength'
  obtain ⟨leading, hleading⟩ :
      ∃ leading : ℤ, leading = (Nat.toDigits 10 d.digits).length - 1 + d.exponent := ⟨_, rfl⟩
  have hwidth : leading.toNat + 1 = (significant d.digits).length + (zeros + d.exponent.toNat) := by
    omega
  unfold magnitudeText
  dsimp only
  rw [← hleading, if_pos (by omega), positional, if_neg (by omega)]
  dsimp only
  rw [hwidth, Nat.add_sub_cancel_left, List.take_of_length_le (by omega),
    List.drop_eq_nil_of_le (by omega), pointed, if_pos rfl]
  exact hdigits.symm

/-- **A natural number of at most 53 bits is written as its numeral,** and its opposite with a minus
sign before it. -/
theorem toText_nearest_natCast {s : Bool} (hn : n < 2 * fullMantissa) (hs : s = true → 0 < n) :
    (nearest s n).toText = signText s ++ Text.ofNat n := by
  rcases n.eq_zero_or_pos with rfl | hpos
  · cases s with
    | false => simp [nearest, zero, toText, signText, Text.ofNat]
    | true => exact absurd (hs rfl) (lt_irrefl 0)
  · obtain ⟨m, q, hcanonical, hvalue⟩ := exists_canonical_natCast s hn
    have hm : 0 < m := by
      refine Nat.pos_of_ne_zero fun h => ?_
      rw [h, Nat.cast_zero, zero_mul] at hvalue
      have : n = 0 := by exact_mod_cast hvalue.symm
      omega
    have hpositive : Canonical (finite false m q) := hcanonical
    obtain ⟨hexp, hdigits⟩ := Decimal.shortest_of_natCast hpos hn hvalue hm hpositive
    rw [← hvalue, nearest_of_canonical hcanonical, toText, if_neg hm.ne',
      magnitudeText_of_natCast (Decimal.digits_shortest_pos hm hpositive) hexp hdigits]
    exact hn.trans (by decide)

end NatCast

end Double

end Smalltalk
