import Smalltalk.Proofs.Arithmetic
import Smalltalk.Proofs.RefusedLiterals
import Smalltalk.Proofs.Tiling

/-! # What literals stand for

The value of a literal is its mantissa, times a power of its radix if it has an exponent. The
mantissa is a number and so is the power, but each of them can be zero or infinite, and their
product is no number where a mantissa of zero meets an infinite power, or an infinite mantissa a
power of zero.

* `Numeral.HasValue`: what a literal stands for, part by part; `Numeral.evaluate_eq_ok_iff`.
* `Numeral.canonical_evaluate`: it has the form of a double.
* `Numeral.Indefinite`: the literals whose mantissa and power are opposed;
  `Numeral.evaluate_eq_nan_iff`: they and no others stand for no number.
* `scan_number_value`: hence what is scanned for a number. -/

namespace Smalltalk

namespace Numeral

open Double

variable {literal before sign digits mantissa : Text} {exponent : Option Text} {radix n : ℕ}

/-! ### Values -/

/-- The value of digits with a point among them. -/
def mantissaValue (radix : ℕ) (digits : Text) : Double :=
  addFraction radix 1 (wholeValue radix ((digits.cut '.').1.filterMap CharClass.digitValue?))
    (((digits.cut '.').2.getD []).filterMap CharClass.digitValue?)

/-- A mantissa times the power of the radix that an exponent says, if there is one. -/
inductive Scaled (n : ℕ) (x : Double) : Option Text → Double → Prop
  | plain : Scaled n x none x
  | power {exponent : Text} {e : ℤ} (he : LeadingInteger exponent e) :
    Scaled n x (some exponent) (x * Double.power n e)

/-- **What a literal stands for,** with a radix or without. -/
inductive HasValue (literal : Text) : Double → Prop
  | decimal {mantissa : Text} {exponent : Option Text} {d : DecimalNumeral} {v : Double}
    (hparts : DecimalParts literal mantissa exponent) (hlead : d.Leads mantissa)
    (h : Scaled 10 d.value exponent v) : HasValue literal v
  | radix {before sign digits : Text} {exponent : Option Text} {n : ℕ} {v : Double}
    (hparts : RadixParts literal before sign digits exponent) (hradix : HasRadix before n)
    (hdigits : ∀ c ∈ digits.erase '.', IsDigitOf n c)
    (h : Scaled n (mantissaValue n digits) exponent v) : HasValue literal (withSign sign v)

theorem scaled_eq_ok_iff {x v : Double} {fault : ScanError} :
    scaled n x exponent fault = .ok v ↔ Scaled n x exponent v := by
  rcases exponent with _ | t
  · rw [scaled]
    constructor
    · rintro ⟨⟩
      exact .plain
    · rintro ⟨⟩
      rfl
  · rw [scaled]
    constructor
    · intro h
      split at h
      · next e he =>
        obtain rfl := Except.ok.inj h
        exact .power (integerPrefix?_eq_some_iff.mp he)
      · cases h
    · rintro (_ | he)
      rw [integerPrefix?_eq_some_iff.mpr he]

/-- The value of a literal with a radix and digits of it. -/
theorem RadixParts.evaluate_of_digits (h : RadixParts literal before sign digits exponent)
    (hradix : HasRadix before n) (hdigits : ∀ c ∈ digits.erase '.', IsDigitOf n c) :
    evaluate literal = (scaled n (mantissaValue n digits) exponent
      ⟨.malformedNumber literal, (before ++ 'r' :: (sign ++ digits)).byteLength⟩).map
        (withSign sign) := by
  rw [h.evaluate_of_some (radix?_eq_some_iff.mpr hradix), mantissaDigits_of_forall hdigits]
  rfl

theorem hasValue_of_evaluate {v : Double} (h : evaluate literal = .ok v) : HasValue literal v := by
  have hnot : ∀ e, ¬ Refused literal e := fun e hrefused => by
    rw [hrefused.evaluate_eq] at h
    cases h
  rcases exists_parts literal with ⟨before, sign, digits, exponent, hparts⟩ | ⟨mantissa, _, hparts⟩
  · by_cases hradix : ∃ n, HasRadix before n
    · obtain ⟨n, hradix⟩ := hradix
      rcases digits_cases n digits with hdigits | ⟨front, d, back, rfl, hfront, hd, hpoint⟩
      · rw [hparts.evaluate_of_digits hradix hdigits] at h
        rcases hs : scaled n (mantissaValue n digits) exponent _ with e | x <;> rw [hs] at h
        · cases h
        · obtain rfl : withSign sign x = v := Except.ok.inj h
          exact .radix hparts hradix hdigits (scaled_eq_ok_iff.mp hs)
      · exact absurd (.digit hparts hradix hfront hd hpoint) (hnot _)
    · exact absurd (.radix hparts (not_exists.mp hradix)) (hnot _)
  · rw [hparts.evaluate_eq] at h
    rcases hbase : decimalPrefix? mantissa with _ | x <;> rw [hbase] at h
    · cases h
    · obtain ⟨d, hlead, rfl⟩ := decimalPrefix?_eq_some_iff.mp hbase
      exact .decimal hparts hlead (scaled_eq_ok_iff.mp h)

/-- **The evaluation gives what a literal stands for.** -/
theorem evaluate_eq_ok_iff {v : Double} : evaluate literal = .ok v ↔ HasValue literal v := by
  refine ⟨hasValue_of_evaluate, fun h => ?_⟩
  cases h with
  | @decimal mantissa exponent d v hparts hlead h =>
    rw [hparts.evaluate_eq, decimalPrefix?_eq_some_iff.mpr ⟨d, hlead, rfl⟩]
    exact scaled_eq_ok_iff.mpr h
  | radix hparts hradix hdigits h =>
    rw [hparts.evaluate_of_digits hradix hdigits, scaled_eq_ok_iff.mpr h]
    rfl

/-! ### Values have their form -/

theorem canonical_wholeValue (radix : ℕ) (digits : List ℕ) :
    (wholeValue radix digits).Canonical := by
  unfold wholeValue
  rcases List.eq_nil_or_concat digits with rfl | ⟨digits, d, rfl⟩
  · exact canonical_zero false
  · rw [List.concat_eq_append, List.foldl_append, List.foldl_cons, List.foldl_nil]
    exact canonical_add _ _

theorem canonical_addFraction {place : ℕ} {value : Double} (h : value.Canonical)
    (digits : List ℕ) : (addFraction radix place value digits).Canonical := by
  induction digits generalizing place value with
  | nil => exact h
  | cons d digits ih => exact ih (canonical_add _ _)

theorem Scaled.canonical {x v : Double} (h : Scaled n x exponent v) (hx : x.Canonical) :
    v.Canonical := by
  cases h with
  | plain => exact hx
  | power => exact canonical_mul _ _

theorem DecimalNumeral.canonical_value (d : DecimalNumeral) : d.value.Canonical := by
  unfold value
  rw [ofDecimal_eq_nearest]
  exact canonical_nearest _ (by positivity)

/-- **The value of a literal has the form of a double.** -/
theorem canonical_evaluate {v : Double} (h : evaluate literal = .ok v) : v.Canonical := by
  cases evaluate_eq_ok_iff.mp h with
  | @decimal _ _ d _ _ _ hscaled => exact hscaled.canonical d.canonical_value
  | radix _ _ _ hscaled =>
    have hv := hscaled.canonical (canonical_addFraction (canonical_wholeValue _ _) _)
    unfold withSign
    split
    · exact hv.neg
    · exact hv

/-! ### Mantissas are numbers -/

theorem not_isInfinite_ofNat {n : ℕ} (hn : n < 2 * fullMantissa) :
    ¬ (Double.ofNat n).IsInfinite := by
  obtain ⟨m, q, h, -, -⟩ := exists_ofNat_eq hn
  rw [h]
  exact id

theorem not_isZero_ofNat {n : ℕ} (hn : n < 2 * fullMantissa) (hpos : 0 < n) :
    ¬ (Double.ofNat n).IsZero := by
  obtain ⟨m, q, h, -, hvalue⟩ := exists_ofNat_eq hn
  rw [h]
  intro hm
  obtain rfl : m = 0 := hm
  rw [Nat.cast_zero, zero_mul] at hvalue
  have : n = 0 := by exact_mod_cast hvalue.symm
  omega

theorem nonnegative_wholeValue (hradix : 0 < radix) (hlarge : radix < 2 * fullMantissa)
    (digits : List ℕ) : (wholeValue radix digits).Nonnegative := by
  -- what is read so far is never multiplied with zero or an infinity
  have key : ∀ (digits : List ℕ) (value : Double), value.Nonnegative → (digits.foldl
      (fun value d => value * Double.ofNat radix + Double.ofNat d) value).Nonnegative := by
    intro digits
    induction digits with
    | nil => exact fun _ h => h
    | cons d digits ih =>
      intro value h
      have hopposed : ¬ Opposed value (Double.ofNat radix) := by
        rintro (⟨-, hinf⟩ | ⟨-, hzero⟩)
        · exact not_isInfinite_ofNat hlarge hinf
        · exact not_isZero_ofNat hlarge hradix hzero
      exact ih _ ((h.mul (nonnegative_ofNat radix) hopposed).add (nonnegative_ofNat d))
  exact key digits _ rfl

theorem nonnegative_addFraction (hradix : 0 < radix) {digits : List ℕ}
    (h : ∀ d ∈ digits, d < 2 * fullMantissa) (place : ℕ) {value : Double}
    (hvalue : value.Nonnegative) : (addFraction radix place value digits).Nonnegative := by
  induction digits generalizing place value with
  | nil => exact hvalue
  | cons d digits ih =>
    have hopposed : ¬ Opposed (Double.ofNat d) (power radix (-place)) := by
      rintro (⟨-, hinf⟩ | ⟨hinf, -⟩)
      · exact not_isInfinite_power hradix (by omega) hinf
      · exact not_isInfinite_ofNat (h d List.mem_cons_self) hinf
    refine ih (fun d hd => h d (List.mem_cons_of_mem _ hd)) _ (hvalue.add ?_)
    exact (nonnegative_ofNat d).mul (nonnegative_power hradix _) hopposed

/-- **The digits of a literal have a number as their value,** and it is not negative. -/
theorem nonnegative_mantissaValue (hradix : 2 ≤ radix ∧ radix ≤ 36)
    (h : ∀ c ∈ digits.erase '.', IsDigitOf radix c) : (mantissaValue radix digits).Nonnegative := by
  have hlarge : 36 < 2 * fullMantissa := by decide
  refine nonnegative_addFraction (by omega) (fun d hd => ?_) 1
    (nonnegative_wholeValue (by omega) (by omega) _)
  obtain ⟨c, hmem, hc⟩ := List.mem_filterMap.mp hd
  rw [erase_eq_cut] at h
  obtain ⟨v, hv, hlt⟩ := h c (List.mem_append_right _ hmem)
  obtain rfl : v = d := Option.some.inj (hv.symm.trans hc)
  omega

theorem DecimalNumeral.value_ne_nan (d : DecimalNumeral) : d.value ≠ nan := by
  unfold value
  rw [ofDecimal_eq_nearest]
  exact nearest_ne_nan _ _

/-! ### Literals that stand for no number -/

/-- **The mantissa of a literal is zero and its power infinite,** or the other way round. -/
inductive Indefinite (literal : Text) : Prop
  /-- A decimal mantissa, and a power of ten. -/
  | decimal {mantissa exponent : Text} {d : DecimalNumeral} {e : ℤ}
    (hparts : DecimalParts literal mantissa (some exponent)) (hlead : d.Leads mantissa)
    (he : LeadingInteger exponent e) (h : Opposed d.value (power 10 e)) : Indefinite literal
  /-- Digits of a radix, and a power of it. -/
  | radix {before sign digits exponent : Text} {n : ℕ} {e : ℤ}
    (hparts : RadixParts literal before sign digits (some exponent)) (hradix : HasRadix before n)
    (hdigits : ∀ c ∈ digits.erase '.', IsDigitOf n c) (he : LeadingInteger exponent e)
    (h : Opposed (mantissaValue n digits) (power n e)) : Indefinite literal

/-- A mantissa that is scaled stays a number unless it and the power are opposed. -/
theorem scaled_nan_iff {x : Double} (hx : x ≠ nan) (hn : 0 < n) : Scaled n x exponent nan ↔
    ∃ t e, exponent = some t ∧ LeadingInteger t e ∧ Opposed x (power n e) := by
  constructor
  · intro h
    generalize hv : nan = v at h
    cases h with
    | plain => exact absurd hv.symm hx
    | @power t e he =>
      rcases mul_eq_nan_iff.mp hv.symm with h | h | h
      · exact absurd h hx
      · exact absurd h (nonnegative_power hn e).ne_nan
      · exact ⟨t, e, rfl, he, h⟩
  · rintro ⟨t, e, rfl, he, h⟩
    have hmul : x * power n e = nan := mul_eq_nan_iff.mpr (Or.inr (Or.inr h))
    exact hmul ▸ .power he

theorem withSign_eq_nan_iff {x : Double} : withSign sign x = nan ↔ x = nan := by
  unfold withSign
  split
  · exact neg_eq_nan_iff
  · rfl

/-- **A literal stands for no number exactly if its mantissa and its power are opposed.** -/
theorem evaluate_eq_nan_iff : evaluate literal = .ok nan ↔ Indefinite literal := by
  rw [evaluate_eq_ok_iff]
  constructor
  · intro h
    generalize hv : nan = v at h
    cases h with
    | @decimal _ _ d _ hparts hlead h =>
      subst hv
      obtain ⟨t, e, rfl, he, hopposed⟩ := (scaled_nan_iff d.value_ne_nan (by norm_num)).mp h
      exact .decimal hparts hlead he hopposed
    | @radix _ _ _ _ n _ hparts hradix hdigits h =>
      obtain rfl := withSign_eq_nan_iff.mp hv.symm
      have hpos : 0 < n := by have := hradix.2.1; omega
      have hmantissa := (nonnegative_mantissaValue hradix.2 hdigits).ne_nan
      obtain ⟨t, e, rfl, he, hopposed⟩ := (scaled_nan_iff hmantissa hpos).mp h
      exact .radix hparts hradix hdigits he hopposed
  · intro h
    cases h with
    | @decimal _ _ d _ hparts hlead he hopposed =>
      exact .decimal hparts hlead
        ((scaled_nan_iff d.value_ne_nan (by norm_num)).mpr ⟨_, _, rfl, he, hopposed⟩)
    | @radix _ _ _ _ n _ hparts hradix hdigits he hopposed =>
      have hpos : 0 < n := by have := hradix.2.1; omega
      have hmantissa := (nonnegative_mantissaValue hradix.2 hdigits).ne_nan
      have hvalue := HasValue.radix hparts hradix hdigits
        ((scaled_nan_iff hmantissa hpos).mpr ⟨_, _, rfl, he, hopposed⟩)
      rwa [withSign_eq_nan_iff.mpr rfl] at hvalue

end Numeral

namespace Lexer

/-- Every token is written as the slice of its place. -/
theorem Run.writtenAs {l : Lexer} {placed : List PlacedToken} {stop : Nat} (h : l.Run placed stop) :
    ∀ p ∈ placed, ∃ w atEnd, l.cursor.source.slice? p.start p.stop = some w ∧
      p.token.WrittenAs w atEnd := by
  intro p hp
  obtain ⟨w, hslice, hwritten⟩ := h.slices p hp
  exact ⟨w, _, hslice, hwritten⟩

end Lexer

open Numeral

/-- **A scanned number is a number unless its literal is indefinite.** Every number token has the
text of the value of its literal, and that is `NaN` exactly if the mantissa of the literal is zero
and its power infinite, or the other way round; any other one is a finite number or an infinity. -/
theorem scan_number_value {text : Text} {start : ℕ} {keepBlanks : Bool} {result : Scan}
    (h : scan text start keepBlanks = .ok result) :
    ∃ placed, ((Lexer.ofOffset text start).withBlanks keepBlanks).placedTokens =
        .ok (placed, result.stop) ∧ result.tokens = placed.map (·.token) ∧
      ∀ p ∈ placed, p.token.kind = .number → ∃ literal v,
        text.slice? p.start p.stop = some literal ∧ evaluate literal = .ok v ∧
          p.token.value = v.toText ∧ (p.token.value = "NaN".toList ↔ Indefinite literal) := by
  obtain ⟨-, placed, hrun, htokens⟩ := scan_ok h
  refine ⟨placed, Lexer.placedTokens_eq_ok_iff.mpr hrun, htokens, fun p hp hk => ?_⟩
  obtain ⟨literal, atEnd, hslice, hwritten⟩ := hrun.writtenAs p hp
  obtain ⟨v, hv, hvalue⟩ : ∃ v, evaluate literal = .ok v ∧ p.token.value = v.toText := by
    unfold Token.WrittenAs at hwritten
    rwa [hk] at hwritten
  refine ⟨literal, v, hslice, hv, hvalue, ?_⟩
  rw [hvalue, Double.toText_eq_nan_iff (canonical_evaluate hv), ← evaluate_eq_nan_iff, hv,
    Except.ok.injEq]

/-- Zero times a power that is too large for a double is scanned to no number, and with the other
mark of an exponent to zero. -/
theorem scan_zero_overflow :
    scan "0e9999".toList 0 false = .ok ⟨[⟨.number, "NaN".toList⟩], 6⟩ ∧
      scan "0E9999".toList 0 false = .ok ⟨[⟨.number, "0".toList⟩], 6⟩ := by
  have hread : Text.readTokens false "0e9999".toList = .ok [⟨.number, "NaN".toList⟩] :=
    Text.readTokens_cons rfl rfl rfl (Text.readTokens_of_nil rfl)
  have hread' : Text.readTokens false "0E9999".toList = .ok [⟨.number, "0".toList⟩] :=
    Text.readTokens_cons rfl rfl rfl (Text.readTokens_of_nil rfl)
  exact ⟨scan_of_readTokens (Or.inr rfl) hread, scan_of_readTokens (Or.inr rfl) hread'⟩

theorem scan_number_value_radix :
    scan "2r0e9999 1E1200e-1200".toList 0 false =
        .ok ⟨[⟨.number, "NaN".toList⟩, ⟨.number, "NaN".toList⟩], 21⟩ ∧
      ∃ placed, ((Lexer.ofOffset "2r0e9999 1E1200e-1200".toList 0).withBlanks false).placedTokens =
          .ok (placed, 21) ∧
        [⟨.number, "NaN".toList⟩, ⟨.number, "NaN".toList⟩] = placed.map (·.token) ∧
        ∀ p ∈ placed, p.token.kind = .number → ∃ literal v,
          Text.slice? "2r0e9999 1E1200e-1200".toList p.start p.stop = some literal ∧
            evaluate literal = .ok v ∧ p.token.value = v.toText ∧
            (p.token.value = "NaN".toList ↔ Indefinite literal) := by
  have h : scan "2r0e9999 1E1200e-1200".toList 0 false =
      .ok ⟨[⟨.number, "NaN".toList⟩, ⟨.number, "NaN".toList⟩], 21⟩ :=
    scan_of_readTokens (Or.inr rfl) (Text.readTokens_cons rfl rfl rfl
      (Text.readTokens_cons rfl rfl rfl (Text.readTokens_of_nil rfl)))
  exact ⟨h, scan_number_value h⟩

end Smalltalk
