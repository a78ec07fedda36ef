import Smalltalk.Double.Power
import Smalltalk.Proofs.CanonicalText

/-! # Doubles under arithmetic

Whatever is computed has the form of a double, and what is computed from numbers that are not
negative is never negative. So it is a number, with one exception: zero times an infinity.

* `Double.canonical_mul`, `Double.canonical_add`, `Double.canonical_power`: results have their form.
* `Double.Nonnegative`: a number that is not negative; sums, rounded numbers and powers are.
* `Double.mul_eq_nan_iff`: when a product is no number.
* `Double.not_isInfinite_power`: only a positive exponent makes a power infinite. -/

namespace Smalltalk

namespace Double

/-! ### Numbers that are not negative -/

/-- A number, finite or infinite, without a minus sign. -/
def Nonnegative : Double → Prop
  | finite s _ _ | infinite s => s = false
  | nan => False

/-- Zero of either sign. -/
def IsZero : Double → Prop
  | finite _ m _ => m = 0
  | _ => False

/-- An infinity of either sign. -/
def IsInfinite : Double → Prop
  | infinite _ => True
  | _ => False

/-- One is zero and the other infinite. -/
def Opposed (x y : Double) : Prop := x.IsZero ∧ y.IsInfinite ∨ x.IsInfinite ∧ y.IsZero

section Arithmetic

variable {x y : Double}

theorem Nonnegative.ne_nan (h : x.Nonnegative) : x ≠ nan := by
  rintro rfl
  exact h

theorem nonnegative_nearest (x : ℚ) : (nearest false x).Nonnegative := by
  unfold nearest
  split
  · rfl
  · split
    split <;> rfl

theorem nearest_ne_nan (s : Bool) (x : ℚ) : nearest s x ≠ nan := by
  unfold nearest
  split
  · nofun
  · split
    split <;> nofun

theorem nonnegative_ofNat (n : ℕ) : (ofNat n).Nonnegative := by
  rw [ofNat_eq_nearest]
  exact nonnegative_nearest n

theorem Nonnegative.add (hx : x.Nonnegative) (hy : y.Nonnegative) : (x + y).Nonnegative := by
  cases x with
  | nan => exact hx.elim
  | infinite s =>
    obtain rfl : s = false := hx
    cases y with
    | nan => exact hy.elim
    | infinite t =>
      obtain rfl : t = false := hy
      rfl
    | finite t n r => rfl
  | finite s m q =>
    obtain rfl : s = false := hx
    cases y with
    | nan => exact hy.elim
    | infinite t => exact hy
    | finite t n r =>
      obtain rfl : t = false := hy
      rw [add_eq_nearest]
      exact nonnegative_nearest _

/-- **When a product is no number.** -/
theorem mul_eq_nan_iff : x * y = nan ↔ x = nan ∨ y = nan ∨ Opposed x y := by
  have hif : ∀ (m : ℕ) (s : Bool), (if m = 0 then nan else infinite s) = nan ↔ m = 0 := by
    intro m s
    split <;> simp_all
  cases x with
  | nan => exact ⟨fun _ => Or.inl rfl, fun _ => by cases y <;> rfl⟩
  | infinite s =>
    cases y with
    | nan => exact ⟨fun _ => Or.inr (Or.inl rfl), fun _ => rfl⟩
    | infinite t =>
      change infinite _ = nan ↔ _
      simp [Opposed, IsZero]
    | finite t n r =>
      change (if n = 0 then nan else infinite _) = nan ↔ _
      rw [hif]
      simp [Opposed, IsZero, IsInfinite]
  | finite s m q =>
    cases y with
    | nan => exact ⟨fun _ => Or.inr (Or.inl rfl), fun _ => rfl⟩
    | infinite t =>
      change (if m = 0 then nan else infinite _) = nan ↔ _
      rw [hif]
      simp [Opposed, IsZero, IsInfinite]
    | finite t n r =>
      rw [mul_eq_nearest]
      simp [nearest_ne_nan, Opposed, IsInfinite]

theorem Nonnegative.mul (hx : x.Nonnegative) (hy : y.Nonnegative) (h : ¬ Opposed x y) :
    (x * y).Nonnegative := by
  have hsign : ∀ m : ℕ, m ≠ 0 → (if m = 0 then nan else infinite false).Nonnegative := by
    intro m hm
    rw [if_neg hm]
    rfl
  cases x with
  | nan => exact hx.elim
  | infinite s =>
    obtain rfl : s = false := hx
    cases y with
    | nan => exact hy.elim
    | infinite t =>
      obtain rfl : t = false := hy
      rfl
    | finite t n r =>
      obtain rfl : t = false := hy
      exact hsign n fun hn => h (Or.inr ⟨trivial, hn⟩)
  | finite s m q =>
    obtain rfl : s = false := hx
    cases y with
    | nan => exact hy.elim
    | infinite t =>
      obtain rfl : t = false := hy
      exact hsign m fun hm => h (Or.inl ⟨hm, trivial⟩)
    | finite t n r =>
      obtain rfl : t = false := hy
      rw [mul_eq_nearest]
      exact nonnegative_nearest _

/-! The results of arithmetic have their form. -/

theorem canonical_round (s : Bool) (num : ℕ) {den : ℕ} (hden : 0 < den) :
    (round s num den).Canonical := by
  rw [round_eq_nearest s hden]
  exact canonical_nearest s (by positivity)

theorem canonical_zero (s : Bool) : (zero s).Canonical :=
  ⟨by decide, le_rfl, by decide, Or.inl rfl⟩

theorem Canonical.neg (h : x.Canonical) : (-x).Canonical := by
  cases x with
  | finite s m q => exact h
  | _ => trivial

theorem canonical_mul (x y : Double) : (x * y).Canonical := by
  have hif : ∀ (m : ℕ) (s : Bool), (if m = 0 then nan else infinite s).Canonical := by
    intro m s
    split <;> trivial
  cases x with
  | nan => cases y <;> trivial
  | infinite s =>
    cases y with
    | finite t n r => exact hif n _
    | _ => trivial
  | finite s m q =>
    cases y with
    | nan => trivial
    | infinite t => exact hif m _
    | finite t n r => exact canonical_round _ _ (natPow_pos (by norm_num) _)

theorem canonical_add (x y : Double) : (x + y).Canonical := by
  cases x with
  | nan => cases y <;> trivial
  | infinite s =>
    cases y with
    | infinite t =>
      change (if s = t then infinite s else nan).Canonical
      split <;> trivial
    | _ => trivial
  | finite s m q =>
    cases y with
    | nan => trivial
    | infinite t => trivial
    | finite t n r =>
      change Canonical (if _ then zero (s && t) else round _ _ _)
      split
      · exact canonical_zero _
      · exact canonical_round _ _ (natPow_pos (by norm_num) _)

theorem neg_eq_nan_iff : -x = nan ↔ x = nan := by
  cases x with
  | nan => exact ⟨fun _ => rfl, fun _ => rfl⟩
  | infinite s => exact ⟨nofun, nofun⟩
  | finite s m q => exact ⟨nofun, nofun⟩

end Arithmetic

/-! ### Powers -/

section Power

variable {x y : Double}

theorem toBits_finite_lt {m : ℕ} (hm : m < 2 * fullMantissa) (q : ℤ) :
    (finite false m q).toBits < ((q + 1075).toNat + 1) * fullMantissa := by
  have hbits : (finite false m q).toBits = if m < fullMantissa then m
      else (q + 1075).toNat * fullMantissa + (m - fullMantissa) := Nat.zero_add _
  rw [hbits, Nat.add_mul, Nat.one_mul]
  split <;> omega

/-- The bits of a number that is not negative. -/
theorem toBits_le (hx : x.Nonnegative) (h : x.Canonical) : x.toBits ≤ 2047 * fullMantissa := by
  cases x with
  | nan => exact hx.elim
  | infinite s =>
    obtain rfl : s = false := hx
    simp [toBits]
  | finite s m q =>
    obtain rfl : s = false := hx
    obtain ⟨hm, -, hmax, -⟩ := h
    unfold maxExponent at hmax
    exact (toBits_finite_lt hm q).le.trans (Nat.mul_le_mul_right _ (by omega))

theorem nonnegative_of_toBits_le (h : x.toBits ≤ 2047 * fullMantissa + 1) : x.Nonnegative := by
  cases x with
  | nan => exact absurd h (by decide)
  | infinite s =>
    cases s with
    | false => rfl
    | true => exact absurd h (by decide)
  | finite s m q =>
    cases s with
    | false => rfl
    | true =>
      simp only [toBits, Bool.toNat_true, signWeight, fullMantissa] at h
      omega

/-- Next to a number that is not negative stands no other. -/
theorem Nonnegative.of_adjacent (hy : y.Nonnegative) (hc : y.Canonical) (h : x.Adjacent y) :
    x.Nonnegative :=
  nonnegative_of_toBits_le (h.1.trans (Nat.succ_le_succ (toBits_le hy hc)))

theorem not_isInfinite_of_toBits_lt (h : x.toBits < 2047 * fullMantissa) : ¬ x.IsInfinite := by
  cases x with
  | infinite s =>
    have hbits : (infinite s).toBits = s.toNat * signWeight + 2047 * fullMantissa := rfl
    omega
  | _ => exact id

/-- **What a power is:** the cut-offs apart, it is the nearest double or one next to it. -/
theorem power_cases (b : ℕ) (hb : 0 < b) (e : ℤ) :
    (1100 < e ∧ power b e = infinite false) ∨ (e < -1100 ∧ power b e = zero false) ∨
      power b e = nearest false (b ^ e) ∨
        power b e = machinePower b e ∧ (machinePower b e).Adjacent (nearest false (b ^ e)) := by
  have hround : round false (Nat.pow b e.toNat) (Nat.pow b (-e).toNat) = nearest false (b ^ e) := by
    rw [round_eq_nearest false (natPow_pos hb _), zpow_eq_div]
  unfold power
  dsimp only
  rw [hround]
  split
  · next h => exact Or.inl ⟨h, rfl⟩
  split
  · next h => exact Or.inr (Or.inl ⟨h, rfl⟩)
  split
  · exact Or.inr (Or.inr (Or.inl rfl))
  split
  · next h => exact Or.inr (Or.inr (Or.inr ⟨rfl, h⟩))
  · exact Or.inr (Or.inr (Or.inl rfl))

/-- **A power is a number that is not negative.** -/
theorem nonnegative_power {b : ℕ} (hb : 0 < b) (e : ℤ) : (power b e).Nonnegative := by
  rcases power_cases b hb e with ⟨-, h⟩ | ⟨-, h⟩ | h | ⟨h, hadjacent⟩ <;> rw [h]
  · rfl
  · rfl
  · exact nonnegative_nearest _
  · exact (nonnegative_nearest _).of_adjacent (canonical_nearest false (by positivity)) hadjacent

theorem canonical_power {b : ℕ} (hb : 0 < b) (e : ℤ) : (power b e).Canonical := by
  rcases power_cases b hb e with ⟨-, h⟩ | ⟨-, h⟩ | h | ⟨h, -⟩ <;> rw [h]
  · trivial
  · exact canonical_zero false
  · exact canonical_nearest false (by positivity)
  · exact canonical_ofBits _

/-- Up to 1 the doubles have no exponent above 0. -/
theorem exists_nearest_of_le_one {x : ℚ} (hx : 0 < x) (h : x ≤ 1) :
    ∃ m q, nearest false x = finite false m q ∧ m < 2 * fullMantissa ∧ q ≤ 0 := by
  have hlog : Int.log 2 x ≤ 0 := by
    have := Int.log_mono_right (b := 2) hx h
    rwa [Int.log_one_right] at this
  have hunit : unitExponent x ≤ -52 := max_le (by omega) (by decide)
  have hsteps := steps_le hx
  have hmax : (0 : ℤ) ≤ maxExponent := by decide
  unfold nearest
  rw [if_neg hx.ne']
  split
  next m q hpair =>
    split at hpair <;> obtain ⟨rfl, rfl⟩ := Prod.mk.inj hpair
    · exact ⟨_, _, if_neg (by omega), by decide, by omega⟩
    · next hcarry => exact ⟨_, _, if_neg (by omega), by omega, by omega⟩

/-- A power with a negative exponent is not infinite. -/
theorem not_isInfinite_power {b : ℕ} (hb : 0 < b) {e : ℤ} (he : e ≤ 0) :
    ¬ (power b e).IsInfinite := by
  have hone : ((b : ℚ) ^ e) ≤ 1 := zpow_le_one_of_nonpos₀ (by exact_mod_cast hb) he
  obtain ⟨m, q, hnearest, hm, hq⟩ := exists_nearest_of_le_one (by positivity) hone
  have hbits : (nearest false ((b : ℚ) ^ e)).toBits + 1 < 2047 * fullMantissa := by
    rw [hnearest]
    calc (finite false m q).toBits + 1 ≤ ((q + 1075).toNat + 1) * fullMantissa :=
          toBits_finite_lt hm q
      _ ≤ 2046 * fullMantissa := Nat.mul_le_mul_right _ (by omega)
      _ < 2047 * fullMantissa := by decide
  rcases power_cases b hb e with ⟨hlarge, -⟩ | ⟨-, h⟩ | h | ⟨h, hadjacent⟩
  · omega
  · rw [h]
    exact id
  · rw [h]
    exact not_isInfinite_of_toBits_lt (by omega)
  · rw [h]
    exact not_isInfinite_of_toBits_lt (lt_of_le_of_lt hadjacent.1 hbits)

end Power

end Double

end Smalltalk
