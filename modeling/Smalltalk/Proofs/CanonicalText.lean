import Smalltalk.Proofs.NumeralGrammar
import Smalltalk.Proofs.ShortestDigits

/-! # Canonical text reads back

The text of a finite double is one decimal numeral from its first character to its last, and the
number read from it is the double. The layout is chosen by the digits that are written, and that
choice is the one by the double: a double at a bound is written with the digits of the bound.

* `Double.exists_positional`, `Double.exists_scientific`: both layouts are numerals, and they stand
  for the digits they are given.
* `Double.le_log_shortest_iff`: the digits of a double reach a power of ten exactly if the double
  reaches the double nearest to it.
* `Double.decimalPrefix?_toText`: the text of a finite double reads back. -/

namespace Smalltalk.Double

open Numeral

/-! ### Layouts -/

section Layout

variable {whole fraction digits : Text}

theorem isSign_signText (s : Bool) : IsSign (signText s) := by
  cases s
  · exact Or.inl rfl
  · exact Or.inr (Or.inr rfl)

/-- The numeral that `pointed` writes between a sign and a power of ten. -/
def numeral (s : Bool) (whole fraction : Text) (power : Option PowerOfTen) (hw : AllDigits whole)
    (hf : AllDigits fraction) (hne : whole ≠ []) : DecimalNumeral where
  sign := signText s
  whole := whole
  fraction := if fraction = [] then none else some fraction
  power := power
  isSign := isSign_signText s
  allDigits_whole := hw
  allDigits_fraction := by
    intro digits h
    split at h
    · cases h
    · exact Option.some.inj h ▸ hf
  ne_nil := List.append_ne_nil_of_left_ne_nil hne _

section Numeral

variable (s : Bool) (power : Option PowerOfTen) (hw : AllDigits whole) (hf : AllDigits fraction)
  (hne : whole ≠ [])

theorem numeral_text : (numeral s whole fraction power hw hf hne).text =
    signText s ++ (pointed whole fraction ++ DecimalNumeral.powerText power) := by
  unfold DecimalNumeral.text numeral pointed
  dsimp only
  split <;> simp [DecimalNumeral.pointText]

theorem numeral_value : (numeral s whole fraction power hw hf hne).value =
    nearest s (Nat.ofDigitChars 10 (whole ++ fraction) 0 *
      10 ^ (power.elim 0 PowerOfTen.exponent - fraction.length)) := by
  have hfraction : (numeral s whole fraction power hw hf hne).fraction.getD [] = fraction := by
    unfold numeral
    dsimp only
    split
    · next h => rw [h, Option.getD_none]
    · rfl
  unfold DecimalNumeral.value
  rw [hfraction, ofDecimal_eq_nearest]
  cases s <;> rfl

end Numeral

theorem allDigits_replicate (k : ℕ) : AllDigits (List.replicate k '0') := by
  intro c hc
  rw [List.eq_of_mem_replicate hc]
  rfl

/-- Zeros between the point and the digits do not change the number. -/
theorem zeros_before_value (digits : Text) {leading : ℤ} (hneg : leading < 0) :
    (Nat.ofDigitChars 10 (['0'] ++ (List.replicate (-leading - 1).toNat '0' ++ digits)) 0 *
        10 ^ ((0 : ℤ) - (List.replicate (-leading - 1).toNat '0' ++ digits).length) : ℚ) =
      Nat.ofDigitChars 10 digits 0 * 10 ^ (leading + 1 - digits.length) := by
  have hexp : (0 : ℤ) - (List.replicate (-leading - 1).toNat '0' ++ digits).length =
      leading + 1 - digits.length := by
    rw [List.length_append, List.length_replicate]
    omega
  have hzeros : Nat.ofDigitChars 10 (['0'] ++ List.replicate (-leading - 1).toNat '0') 0 = 0 :=
    Nat.ofDigitChars_replicate_zero
  rw [hexp, ← List.append_assoc, Nat.ofDigitChars_append, hzeros]

/-- A point among the digits or behind them, with zeros before it, does not change the number. -/
theorem zeros_behind_value (digits : Text) {leading : ℤ} (hneg : ¬ leading < 0) :
    (Nat.ofDigitChars 10 (digits.take (leading.toNat + 1) ++
        List.replicate (leading.toNat + 1 - digits.length) '0' ++
          digits.drop (leading.toNat + 1)) 0 *
        10 ^ ((0 : ℤ) - (digits.drop (leading.toNat + 1)).length) : ℚ) =
      Nat.ofDigitChars 10 digits 0 * 10 ^ (leading + 1 - digits.length) := by
  rw [List.length_drop]
  rcases Nat.le_total digits.length (leading.toNat + 1) with hle | hle
  · -- there is no fraction
    have hexp : leading + 1 - digits.length = (leading.toNat + 1 - digits.length : ℕ) := by omega
    rw [List.take_of_length_le hle, List.drop_eq_nil_of_le hle, List.append_nil,
      Nat.ofDigitChars_append, Nat.ofDigitChars_replicate_zero, Nat.sub_eq_zero_of_le hle, hexp,
      zpow_natCast, Nat.cast_zero, sub_zero, zpow_zero, mul_one, Nat.cast_mul, Nat.cast_pow,
      Nat.cast_ofNat, mul_comm]
  · -- there are no zeros
    have hexp : (0 : ℤ) - (digits.length - (leading.toNat + 1) : ℕ) =
        leading + 1 - digits.length := by omega
    rw [Nat.sub_eq_zero_of_le hle, List.replicate_zero, List.append_nil, List.take_append_drop,
      hexp]

/-- **Positional notation is a numeral,** and its number is that of the digits at their place. -/
theorem exists_positional (s : Bool) (hd : AllDigits digits) (hne : digits ≠ []) (leading : ℤ) :
    ∃ d : DecimalNumeral, d.text = signText s ++ positional digits leading ∧
      d.sign = signText s ∧ d.power = none ∧ d.value =
        nearest s (Nat.ofDigitChars 10 digits 0 * 10 ^ (leading + 1 - digits.length)) := by
  unfold positional
  split
  · next hneg =>
    have hf : AllDigits (List.replicate (-leading - 1).toNat '0' ++ digits) :=
      List.forall_mem_append.mpr ⟨allDigits_replicate _, hd⟩
    refine ⟨numeral s ['0'] _ none (allDigits_replicate 1) hf (List.cons_ne_nil _ _),
      ?_, rfl, rfl, ?_⟩
    · rw [numeral_text]
      simp [DecimalNumeral.powerText]
    · rw [numeral_value, Option.elim_none, zeros_before_value digits hneg]
  · next hneg =>
    have hw : AllDigits (digits.take (leading.toNat + 1) ++
        List.replicate (leading.toNat + 1 - digits.length) '0') :=
      List.forall_mem_append.mpr
        ⟨fun c hc => hd c (List.mem_of_mem_take hc), allDigits_replicate _⟩
    have hf : AllDigits (digits.drop (leading.toNat + 1)) :=
      fun c hc => hd c (List.mem_of_mem_drop hc)
    have hwne : digits.take (leading.toNat + 1) ++
        List.replicate (leading.toNat + 1 - digits.length) '0' ≠ [] := by
      simp [hne]
    refine ⟨numeral s _ _ none hw hf hwne, ?_, rfl, rfl, ?_⟩
    · rw [numeral_text]
      simp [DecimalNumeral.powerText]
    · rw [numeral_value, Option.elim_none, zeros_behind_value digits hneg]

/-- A power of ten with its sign written out. -/
def signedPower (leading : ℤ) : PowerOfTen where
  mark := 'e'
  sign := [if leading < 0 then '-' else '+']
  digits := Text.ofNat leading.natAbs
  mark_eq := Or.inl rfl
  isSign := by
    split
    · exact Or.inr (Or.inr rfl)
    · exact Or.inr (Or.inl rfl)
  allDigits := allDigits_ofNat _
  ne_nil := ofNat_ne_nil _

theorem signedPower_exponent (leading : ℤ) : (signedPower leading).exponent = leading := by
  unfold PowerOfTen.exponent signedPower signed
  dsimp only
  rw [ofDigitChars_ofNat]
  by_cases h : leading < 0
  · simp only [h, if_true, decide_true]
    omega
  · simp only [h, if_false]
    rw [if_neg (by decide)]
    omega

/-- **Scientific notation is a numeral,** and its number is that of the digits at their place. -/
theorem exists_scientific (s : Bool) (hd : AllDigits digits) (hne : digits ≠ []) (leading : ℤ) :
    ∃ d : DecimalNumeral, d.text = signText s ++ scientific digits leading ∧
      d.sign = signText s ∧ d.whole.length = 1 ∧ d.power = some (signedPower leading) ∧ d.value =
        nearest s (Nat.ofDigitChars 10 digits 0 * 10 ^ (leading + 1 - digits.length)) := by
  have hw : AllDigits (digits.take 1) := fun c hc => hd c (List.mem_of_mem_take hc)
  have hf : AllDigits (digits.drop 1) := fun c hc => hd c (List.mem_of_mem_drop hc)
  have hwne : digits.take 1 ≠ [] := by simp [hne]
  have hlen : 0 < digits.length := List.length_pos_iff.mpr hne
  refine ⟨numeral s _ _ (some (signedPower leading)) hw hf hwne, ?_, rfl, ?_, rfl, ?_⟩
  · rw [numeral_text]
    rfl
  · exact (List.length_take_of_le hlen)
  · have hexp : leading - (digits.length - 1 : ℕ) = leading + 1 - digits.length := by omega
    rw [numeral_value, Option.elim_some, signedPower_exponent, List.take_append_drop,
      List.length_drop, hexp]

end Layout

/-! ### The digits of a numeral at their place -/

section Digits

variable {d : Decimal}

theorem significant_ne_nil {n : ℕ} (hn : 0 < n) : significant n ≠ [] := by
  intro hnil
  obtain ⟨zeros, hsplit⟩ := toDigits_eq_significant n
  have hvalue : Nat.ofDigitChars 10 (Nat.toDigits 10 n) 0 = n := ofDigitChars_ofNat n
  rw [hsplit, hnil, List.nil_append, Nat.ofDigitChars_replicate_zero, Nat.mul_zero] at hvalue
  omega

theorem magnitudeText_eq (hd : 0 < d.digits) : magnitudeText d =
    if -6 ≤ Int.log 10 d.value ∧ Int.log 10 d.value < 21 then
      positional (significant d.digits) (Int.log 10 d.value)
    else scientific (significant d.digits) (Int.log 10 d.value) := by
  rw [Decimal.value, log_decimal hd]
  rfl

/-- The digits that are written stand for the numeral if the first has its place. -/
theorem significant_value (hd : 0 < d.digits) :
    (Nat.ofDigitChars 10 (significant d.digits) 0 *
      10 ^ (Int.log 10 d.value + 1 - (significant d.digits).length) : ℚ) = d.value := by
  obtain ⟨zeros, hsplit⟩ := toDigits_eq_significant d.digits
  have hvalue : Nat.ofDigitChars 10 (Nat.toDigits 10 d.digits) 0 = d.digits :=
    ofDigitChars_ofNat d.digits
  have hlength := congrArg List.length hsplit
  rw [List.length_append, List.length_replicate] at hlength
  rw [hsplit, Nat.ofDigitChars_append, Nat.ofDigitChars_replicate_zero] at hvalue
  have hexp : Int.log 10 d.value + 1 - (significant d.digits).length = zeros + d.exponent := by
    rw [Decimal.value, log_decimal hd]
    omega
  rw [hexp, zpow_add₀ (by norm_num), zpow_natCast, Decimal.value, ← mul_assoc,
    mul_comm _ ((10 : ℚ) ^ zeros)]
  congr 1
  exact_mod_cast hvalue

/-- The text of a numeral is a numeral, in the layout that its logarithm selects. -/
theorem exists_magnitudeText (s : Bool) (hd : 0 < d.digits) :
    ∃ num : DecimalNumeral, num.text = signText s ++ magnitudeText d ∧ num.sign = signText s ∧
      num.value = nearest s d.value ∧
      num.power = (if -6 ≤ Int.log 10 d.value ∧ Int.log 10 d.value < 21 then none
        else some (signedPower (Int.log 10 d.value))) ∧
      (num.power ≠ none → num.whole.length = 1) := by
  have hdigits : AllDigits (significant d.digits) := fun _ => isDigit_of_mem_significant
  have hne := significant_ne_nil hd
  rw [magnitudeText_eq hd]
  split
  · obtain ⟨num, htext, hsign, hpower, hvalue⟩ :=
      exists_positional s hdigits hne (Int.log 10 d.value)
    rw [significant_value hd] at hvalue
    exact ⟨num, htext, hsign, hvalue, hpower, fun h => absurd hpower h⟩
  · obtain ⟨num, htext, hsign, hwhole, hpower, hvalue⟩ :=
      exists_scientific s hdigits hne (Int.log 10 d.value)
    rw [significant_value hd] at hvalue
    exact ⟨num, htext, hsign, hvalue, hpower, fun _ => hwhole⟩

end Digits

/-! ### The layout by the double -/

/-- What a finite double stands for, without its sign. -/
def magnitude : Double → ℚ
  | finite _ m q => m * 2 ^ q
  | _ => 0

/-- At least the double nearest to `10 ^ -6`, and less than `10 ^ 21`. -/
def Moderate (v : Double) : Prop :=
  (ofDecimal false 1 (-6)).magnitude ≤ v.magnitude ∧
    v.magnitude < (ofDecimal false 1 21).magnitude

section Bounds

variable {s : Bool} {m m₀ : ℕ} {q q₀ k : ℤ}

/-- **The digits of a double reach a power of ten exactly if the double reaches the double nearest
to it,** provided the digits of that one do. -/
theorem le_log_shortest_iff (hm : 0 < m) (h : Canonical (finite false m q))
    (h₀ : Canonical (finite false m₀ q₀)) (hnearest : ofDecimal false 1 k = finite false m₀ q₀)
    (hreach : k ≤ Int.log 10 (Decimal.shortest m₀ q₀).value) :
    k ≤ Int.log 10 (Decimal.shortest m q).value ↔ (m₀ * 2 ^ q₀ : ℚ) ≤ m * 2 ^ q := by
  have hpos : 0 < (Decimal.shortest m q).value :=
    mul_pos (by exact_mod_cast Decimal.digits_shortest_pos hm h) (by positivity)
  have hread := Decimal.toDouble_shortest hm h
  rw [Decimal.toDouble_eq_nearest] at hread
  rw [ofDecimal_eq_nearest, Nat.cast_one, one_mul] at hnearest
  have hrounded := rounded_of_nearest hpos.ne' hread
  have hrounded₀ := rounded_of_nearest (by positivity) hnearest
  have hlog := Int.zpow_le_iff_le_log (b := 10) (x := k) (by norm_num) hpos
  rw [Nat.cast_ofNat] at hlog
  rw [← hlog, ← hrounded₀, ← hrounded]
  constructor
  · exact rounded_mono (by positivity)
  · intro hle
    by_contra hlt
    -- the double is the one nearest to the power, so its digits are the ones that reach it
    have hge := rounded_mono hpos (not_le.mp hlt).le
    have hsame : (m * 2 ^ q : ℚ) = m₀ * 2 ^ q₀ := by
      rw [← hrounded, ← hrounded₀]
      exact le_antisymm hge hle
    have heq := nearest_of_canonical h
    rw [hsame, nearest_of_canonical h₀] at heq
    obtain ⟨-, rfl, rfl⟩ := finite.inj heq
    exact hlt (hlog.mpr hreach)

theorem moderate_iff (hm : 0 < m) (h : Canonical (finite s m q)) :
    Moderate (finite s m q) ↔ -6 ≤ Int.log 10 (Decimal.shortest m q).value ∧
      Int.log 10 (Decimal.shortest m q).value < 21 := by
  have hsmall : ofDecimal false 1 (-6) = finite false 4722366482869645 (-72) := by decide +kernel
  have hlarge : ofDecimal false 1 21 = finite false 7629394531250000 17 := by decide +kernel
  have hreach : -6 ≤ Int.log 10 (Decimal.shortest 4722366482869645 (-72)).value := by
    have hdigits : Decimal.shortest 4722366482869645 (-72) = ⟨10, -7⟩ := by decide +kernel
    rw [hdigits, Decimal.value, log_decimal (by decide)]
    decide
  have hreach' : 21 ≤ Int.log 10 (Decimal.shortest 7629394531250000 17).value := by
    have hdigits : Decimal.shortest 7629394531250000 17 = ⟨1, 21⟩ := by decide +kernel
    rw [hdigits, Decimal.value, log_decimal (by decide)]
    decide
  have hlow := le_log_shortest_iff hm h ⟨by decide, by decide, by decide, Or.inr (by decide)⟩
    hsmall hreach
  have hhigh := le_log_shortest_iff hm h ⟨by decide, by decide, by decide, Or.inr (by decide)⟩
    hlarge hreach'
  unfold Moderate
  rw [hsmall, hlarge, ← not_le, ← not_le (a := (21 : ℤ)), hlow, hhigh]
  rfl

end Bounds

/-! ### Reading back -/

/-- Every pattern of bits is a double in its form. -/
theorem canonical_ofBits (bits : ℕ) : (ofBits bits).Canonical := by
  have hf : bits % fullMantissa < fullMantissa := Nat.mod_lt _ (by decide)
  have he : bits / fullMantissa % 2048 < 2048 := Nat.mod_lt _ (by decide)
  unfold ofBits
  dsimp only
  split
  · split <;> trivial
  · split
    · exact ⟨by omega, le_rfl, by decide, Or.inl rfl⟩
    · refine ⟨by omega, ?_, ?_, Or.inr (Nat.le_add_right _ _)⟩
      · unfold minExponent
        omega
      · unfold maxExponent
        omega

section ReadBack

variable {s : Bool} {m : ℕ} {q : ℤ}

/-- The text of zero is a numeral. -/
theorem exists_zero_text (s : Bool) (q : ℤ) : ∃ d : DecimalNumeral, (finite s 0 q).toText = d.text ∧
    d.power = none :=
  ⟨numeral false ['0'] [] none (allDigits_replicate 1) nofun nofun, rfl, rfl⟩

/-- The text of any other finite double is a numeral, and it stands for the double. -/
theorem exists_numeral_text (hm : 0 < m) (h : Canonical (finite s m q)) :
    ∃ d : DecimalNumeral, (finite s m q).toText = d.text ∧ d.value = finite s m q ∧
      d.sign = signText s ∧ (d.power = none ↔ Moderate (finite s m q)) ∧
      ∀ p ∈ d.power, p.mark = 'e' ∧ p.sign ≠ [] ∧ d.whole.length = 1 := by
  have hpositive : Canonical (finite false m q) := h
  obtain ⟨d, htext, hsign, hvalue, hpower, hwhole⟩ :=
    exists_magnitudeText s (Decimal.digits_shortest_pos hm hpositive)
  have hread := Decimal.toDouble_shortest hm hpositive
  rw [Decimal.toDouble_eq_nearest] at hread
  rw [nearest_sign s hread] at hvalue
  refine ⟨d, ?_, hvalue, hsign, ?_, fun p hp => ?_⟩
  · rw [htext, toText, if_neg hm.ne']
  · rw [moderate_iff hm h, hpower]
    split <;> simp [*]
  · have hsome := Option.mem_def.mp hp
    have hlength := hwhole (by rw [hsome]; exact Option.some_ne_none p)
    rw [hsome] at hpower
    split at hpower
    · cases hpower
    · obtain rfl := Option.some.inj hpower
      exact ⟨rfl, List.cons_ne_nil _ _, hlength⟩

/-- Only what is no number is written as none. -/
theorem toText_eq_nan_iff {v : Double} (h : v.Canonical) : v.toText = "NaN".toList ↔ v = nan := by
  refine ⟨fun htext => ?_, fun hv => by rw [hv]; rfl⟩
  cases v with
  | nan => rfl
  | infinite s =>
    exfalso
    revert htext
    cases s <;> decide
  | finite s m q =>
    exfalso
    obtain ⟨d, hd⟩ : ∃ d : DecimalNumeral, (finite s m q).toText = d.text := by
      rcases m.eq_zero_or_pos with rfl | hm
      · exact (exists_zero_text s q).imp fun _ hd => hd.1
      · exact (exists_numeral_text hm h).imp fun _ hd => hd.1
    have hread : decimalPrefix? "NaN".toList = some d.value := by
      rw [← htext, hd, d.decimalPrefix?_text]
    exact Option.some_ne_none _ (hread.symm.trans (by decide))

/-- **The text of a finite double reads back.** It is a numeral as a whole, so that all of it is
read, and the number read is the double itself, or positive zero for both zeros. The sign is kept,
and a power of ten, with its own sign written out behind one digit and the fraction, is written
exactly for the magnitudes that are not moderate. -/
theorem decimalPrefix?_toText (h : Canonical (finite s m q)) :
    decimalPrefix? (finite s m q).toText =
        some (if m = 0 then zero false else finite s m q) ∧
      ∃ d : DecimalNumeral, (finite s m q).toText = d.text ∧ d.Leads (finite s m q).toText ∧
        (m ≠ 0 → d.sign = signText s ∧ (d.power = none ↔ Moderate (finite s m q))) ∧
        ∀ p ∈ d.power, p.mark = 'e' ∧ p.sign ≠ [] ∧ d.whole.length = 1 := by
  have hleads : ∀ d : DecimalNumeral, d.Leads d.text := by
    intro d
    simpa using (DecimalNumeral.endsBefore_nil d).leads
  rcases m.eq_zero_or_pos with rfl | hm
  · obtain ⟨d, htext, hpower⟩ := exists_zero_text s q
    refine ⟨rfl, d, htext, htext ▸ hleads d, fun h0 => absurd rfl h0, fun p hp => ?_⟩
    rw [hpower] at hp
    cases hp
  · obtain ⟨d, htext, hvalue, hsign, hmoderate, hpower⟩ := exists_numeral_text hm h
    rw [htext, d.decimalPrefix?_text, hvalue, if_neg hm.ne']
    exact ⟨rfl, d, rfl, hleads d, fun _ => ⟨hsign, hmoderate⟩, hpower⟩

end ReadBack

/-- The least positive double is written with one digit and reads back. -/
theorem decimalPrefix?_toText_least : Canonical (finite false 1 (-1074)) ∧
    decimalPrefix? (finite false 1 (-1074)).toText = some (finite false 1 (-1074)) :=
  have h : Canonical (finite false 1 (-1074)) := ⟨by decide, le_rfl, by decide, Or.inl rfl⟩
  ⟨h, (decimalPrefix?_toText h).1⟩

end Smalltalk.Double
