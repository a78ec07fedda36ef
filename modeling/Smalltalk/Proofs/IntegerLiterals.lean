import Mathlib.Data.Nat.Digits.Defs
import Smalltalk.Proofs.LiteralValues
import Smalltalk.Proofs.NumberCapture

/-! # Integers in every radix

A literal that is an integer of at most 53 bits has that integer as its value, whatever its radix.
The letters among its digits are upper case ones, which are no marks, so that the whole literal is
captured; no value on the way is rounded, since none exceeds the last one; and the value is written
as its decimal numeral.

* `scan_literal`: a literal alone is scanned to one number.
* `Numeral.wholeValue_eq`: the value of digits without a point is exact up to 53 bits.
* `scan_integer`: integer literals are exact in every radix. -/

namespace Smalltalk

open Double

/-! ### A literal alone -/

namespace Reading

open Numeral

/-- A literal that nothing follows is captured as a whole. -/
theorem capture_of_admissible {literal : Text} (h : Admissible literal []) :
    capture {} literal = (literal, none) := by
  obtain ⟨rest, ht, -, hh⟩ := halted_capture describes_nil (admissible_nil literal)
  rcases hc : capture {} literal with ⟨captured, result⟩
  simp only [hc, List.nil_append] at ht hh
  have hprefix : literal <+: captured := hh.isPrefix (by rw [List.append_nil, ht]) h
  have hrest : rest = [] := by
    have hlen := congrArg List.length ht
    rw [List.length_append] at hlen
    exact List.eq_nil_of_length_eq_zero (by have := hprefix.length_le; omega)
  subst hrest
  cases hh
  rw [ht, List.append_nil]

end Reading

/-- A number that takes all of the text is its only token, and what is wrong with a number is wrong
with the text. -/
theorem scan_of_number {t : Text} (hstart : Numeral.StartsInteger t)
    (hall : ∀ k, (Reading.number t).outcome = .ok k → (Reading.number t).lexeme = t)
    (keepBlanks : Bool) : scan t 0 keepBlanks =
      (Reading.number t).outcome.map fun k => ⟨[k], t.byteLength⟩ := by
  obtain ⟨c, u, rfl, hw⟩ := Reading.exists_cons_of_startsInteger hstart
  have hblank : Text.dropBlanks keepBlanks (c :: u) = c :: u := by
    unfold Text.dropBlanks
    split
    · rfl
    · rw [List.dropWhile_cons_of_neg (by simp [hw])]
  have hskipped : Text.skippedBlanks keepBlanks (c :: u) = [] := by
    have hsplit := Text.skippedBlanks_append_dropBlanks keepBlanks (c :: u)
    simpa [hblank] using hsplit
  have hread := Reading.ofText_of_startsInteger hstart
  rw [scan_eq_readTokens (Text.isBoundary_zero _).canStart, Text.fromByte_zero]
  rcases hn : Reading.number (c :: u) with ⟨e | k, lexeme⟩
  · rw [Text.readTokens_of_error hblank (by rw [hread, hn]), hskipped]
    simp [Except.mapError, Except.map, ScanError.shift]
  · rw [hn] at hall
    obtain rfl : lexeme = c :: u := hall k rfl
    have hend : Text.readTokens keepBlanks [] = .ok [] :=
      Text.readTokens_of_nil (by cases keepBlanks <;> rfl)
    rw [Text.readTokens_cons hblank (hread.trans hn) (List.append_nil _).symm hend, Nat.zero_add]
    rfl

/-- **A literal alone is scanned to one number.** -/
theorem scan_literal {literal : Text} {v : Double} (hstart : Numeral.StartsInteger literal)
    (h : Numeral.Admissible literal []) (hv : Numeral.evaluate literal = .ok v)
    (keepBlanks : Bool) :
    scan literal 0 keepBlanks = .ok ⟨[⟨.number, v.toText⟩], literal.byteLength⟩ := by
  have hnumber : Reading.number literal = ⟨.ok ⟨.number, v.toText⟩, literal⟩ := by
    rw [Reading.number_of_capture (Reading.capture_of_admissible h), hv]
    rfl
  rw [scan_of_number hstart fun _ _ => by rw [hnumber], hnumber]
  rfl

namespace Numeral

/-! ### Numerals in a radix -/

/-- The digit with a value below 36: a decimal digit or an upper case letter. -/
def upperDigit (d : ℕ) : Char :=
  if d < 10 then Char.ofNat ('0'.toNat + d) else Char.ofNat ('A'.toNat + (d - 10))

/-- The numeral of a natural number in a radix, the highest digit first. -/
def inBase (radix n : ℕ) : Text :=
  if n = 0 then ['0'] else ((Nat.digits radix n).map upperDigit).reverse

/-- A literal with its radix: `r`, a minus sign for negative numbers, any zeros, and the numeral. -/
def integerLiteral (radix : ℕ) (negative : Bool) (zeros n : ℕ) : Text :=
  Text.ofNat radix ++ 'r' :: (signText negative ++ (List.replicate zeros '0' ++ inBase radix n))

/-- A decimal digit or an upper case letter, hence no mark of a literal. -/
def IsUpperDigit (c : Char) : Prop := c.isDigit ∨ c.isUpper

section Digits

variable {radix n : ℕ}

theorem upperDigit_spec {d : ℕ} (hd : d < 36) :
    CharClass.digitValue? (upperDigit d) = some d ∧ IsUpperDigit (upperDigit d) := by
  have hall : ∀ d < 36, CharClass.digitValue? (upperDigit d) = some d ∧
      ((upperDigit d).isDigit ∨ (upperDigit d).isUpper) := by decide
  exact hall d hd

theorem exists_digit_of_mem_inBase {c : Char} (hradix : 2 ≤ radix) (h : c ∈ inBase radix n) :
    ∃ d < radix, c = upperDigit d := by
  unfold inBase at h
  split at h
  · exact ⟨0, by omega, List.mem_singleton.mp h⟩
  · obtain ⟨d, hd, rfl⟩ := List.mem_map.mp (List.mem_reverse.mp h)
    exact ⟨d, Nat.digits_lt_base (by omega) hd, rfl⟩

theorem isUpperDigit_of_mem_inBase {c : Char} (hradix : 2 ≤ radix ∧ radix ≤ 36)
    (h : c ∈ inBase radix n) : IsUpperDigit c := by
  obtain ⟨d, hd, rfl⟩ := exists_digit_of_mem_inBase hradix.1 h
  exact (upperDigit_spec (by omega)).2

theorem isDigitOf_of_mem_inBase {c : Char} (hradix : 2 ≤ radix ∧ radix ≤ 36)
    (h : c ∈ inBase radix n) : IsDigitOf radix c := by
  obtain ⟨d, hd, rfl⟩ := exists_digit_of_mem_inBase hradix.1 h
  exact ⟨d, (upperDigit_spec (by omega)).1, hd⟩

theorem isUpperDigit_padded {c : Char} {zeros : ℕ} (hradix : 2 ≤ radix ∧ radix ≤ 36)
    (h : c ∈ List.replicate zeros '0' ++ inBase radix n) : IsUpperDigit c := by
  rcases List.mem_append.mp h with h | h
  · rw [List.eq_of_mem_replicate h]
    exact Or.inl rfl
  · exact isUpperDigit_of_mem_inBase hradix h

theorem isDigitOf_padded {c : Char} {zeros : ℕ} (hradix : 2 ≤ radix ∧ radix ≤ 36)
    (h : c ∈ List.replicate zeros '0' ++ inBase radix n) : IsDigitOf radix c := by
  rcases List.mem_append.mp h with h | h
  · rw [List.eq_of_mem_replicate h]
    exact ⟨0, rfl, by omega⟩
  · exact isDigitOf_of_mem_inBase hradix h

/-! ### Horner's rule -/

/-- The number with these digits, the highest first, behind the number `start`. -/
def horner (radix start : ℕ) (digits : List ℕ) : ℕ :=
  digits.foldl (fun value d => value * radix + d) start

theorem horner_cons (radix start d : ℕ) (digits : List ℕ) :
    horner radix start (d :: digits) = horner radix (start * radix + d) digits := rfl

/-- No value on the way exceeds the last one. -/
theorem le_horner (hradix : 0 < radix) (start : ℕ) (digits : List ℕ) :
    start ≤ horner radix start digits := by
  induction digits generalizing start with
  | nil => exact le_rfl
  | cons d digits ih =>
    have hmul : start ≤ start * radix := Nat.le_mul_of_pos_right _ hradix
    exact (hmul.trans (Nat.le_add_right _ _)).trans (ih _)

theorem horner_reverse (radix : ℕ) (digits : List ℕ) :
    horner radix 0 digits.reverse = Nat.ofDigits radix digits := by
  induction digits with
  | nil => rfl
  | cons d digits ih =>
    rw [Nat.ofDigits_cons, ← ih, List.reverse_cons]
    unfold horner
    rw [List.foldl_append, List.foldl_cons, List.foldl_nil]
    ring

theorem horner_zeros (radix zeros : ℕ) (digits : List ℕ) :
    horner radix 0 (List.replicate zeros 0 ++ digits) = horner radix 0 digits := by
  induction zeros with
  | zero => rfl
  | succ zeros ih =>
    rw [List.replicate_succ, List.cons_append, horner_cons, Nat.zero_mul, Nat.zero_add, ih]

/-- The values of the digits of a numeral give its number back. -/
theorem horner_inBase (hradix : 2 ≤ radix ∧ radix ≤ 36) (zeros n : ℕ) :
    horner radix 0
      ((List.replicate zeros '0' ++ inBase radix n).filterMap CharClass.digitValue?) = n := by
  have hzeros : (List.replicate zeros '0').filterMap CharClass.digitValue? =
      List.replicate zeros 0 :=
    List.filterMap_replicate_of_some rfl
  rw [List.filterMap_append, hzeros, horner_zeros]
  unfold inBase
  split
  · next h =>
    have hzero : ['0'].filterMap CharClass.digitValue? = [0] := rfl
    rw [h, hzero, horner_cons, Nat.zero_mul]
    rfl
  · have hvalues : ((Nat.digits radix n).map upperDigit).filterMap CharClass.digitValue? =
        Nat.digits radix n := by
      rw [List.filterMap_map]
      refine (List.filterMap_congr fun d hd => ?_).trans (List.filterMap_some ..)
      have hlt : d < radix := Nat.digits_lt_base (by omega) hd
      exact (upperDigit_spec (by omega)).1
    rw [List.filterMap_reverse, hvalues, horner_reverse, Nat.ofDigits_digits]

/-- **The value of digits without a point is exact** as long as it has at most 53 bits. -/
theorem wholeValue_eq (hradix : 0 < radix) (hlarge : radix < 2 * fullMantissa) {digits : List ℕ}
    (h : horner radix 0 digits < 2 * fullMantissa) :
    wholeValue radix digits = Double.ofNat (horner radix 0 digits) := by
  -- the induction is over any start, the number that the digits read so far have
  have key : ∀ (digits : List ℕ) (start : ℕ), horner radix start digits < 2 * fullMantissa →
      digits.foldl (fun value d => value * Double.ofNat radix + Double.ofNat d)
        (Double.ofNat start) = Double.ofNat (horner radix start digits) := by
    intro digits
    induction digits with
    | nil => exact fun _ _ => rfl
    | cons d digits ih =>
      intro start h
      rw [horner_cons] at h ⊢
      have hnext := (le_horner hradix (start * radix + d) digits).trans_lt h
      have hstart : start ≤ start * radix := Nat.le_mul_of_pos_right _ hradix
      rw [List.foldl_cons, ofNat_mul (by omega) hlarge, ofNat_add (by omega) (by omega)]
      exact ih _ h
  exact key digits 0 h

end Digits

/-! ### The value of an integer literal -/

section Integer

variable {radix n : ℕ} {before sign digits : Text}

theorem isUpperDigit_ofNat {c : Char} (h : c ∈ Text.ofNat n) : IsUpperDigit c :=
  Or.inl (allDigits_ofNat n c h)

theorem IsUpperDigit.not_mark {c : Char} (h : IsUpperDigit c) : c ∉ ['r', 'e', '.', '-'] := by
  have hmarks : ∀ x ∈ ['r', 'e', '.', '-'], x.isDigit = false ∧ x.isUpper = false := by simp
  intro hmem
  obtain ⟨hd, hu⟩ := hmarks c hmem
  rcases h with h | h
  · rw [hd] at h
    cases h
  · rw [hu] at h
    cases h

theorem IsUpperDigit.isAlphanum {c : Char} (h : IsUpperDigit c) : c.isAlphanum := by
  show (c.isUpper || c.isLower || c.isDigit) = true
  rcases h with h | h <;> simp [h]

theorem notMem_of_isUpperDigit {t : Text} {mark : Char} (ht : ∀ c ∈ t, IsUpperDigit c)
    (hm : mark ∈ ['r', 'e', '.', '-']) : mark ∉ t :=
  fun hmem => (ht mark hmem).not_mark hm

/-- Digits with a sign, and with a radix before them, can be a literal. -/
theorem admissible_of_isUpperDigit {mark : Text} (hmark : mark = [] ∨ mark = ['r'])
    (hsign : sign = [] ∨ sign = ['-']) (hb : ∀ c ∈ before, IsUpperDigit c)
    (hd : ∀ c ∈ digits, IsUpperDigit c) : Admissible (before ++ (mark ++ (sign ++ digits))) [] := by
  have hcount : ∀ x ∈ ['r', 'e', '.', '-'], (before ++ (mark ++ (sign ++ digits))).count x =
      mark.count x + sign.count x := by
    intro x hx
    simp only [List.count_append, List.count_eq_zero_of_not_mem (notMem_of_isUpperDigit hb hx),
      List.count_eq_zero_of_not_mem (notMem_of_isUpperDigit hd hx)]
    omega
  have he : (before ++ (mark ++ (sign ++ digits))).count 'e' = 0 := by
    rw [hcount _ (by decide)]
    rcases hmark with rfl | rfl <;> rcases hsign with rfl | rfl <;> rfl
  have hpoint : (before ++ (mark ++ (sign ++ digits))).count '.' = 0 := by
    rw [hcount _ (by decide)]
    rcases hmark with rfl | rfl <;> rcases hsign with rfl | rfl <;> rfl
  have hminus : (before ++ (mark ++ (sign ++ digits))).count '-' ≤ 1 := by
    rw [hcount _ (by decide)]
    rcases hmark with rfl | rfl <;> rcases hsign with rfl | rfl <;> decide
  have hall := forall_ne_of_notMem (List.count_eq_zero.mp he)
  refine ⟨fun c hc => ?_, ?_, by omega, by omega, ?_, ?_, ?_⟩
  · simp only [List.mem_append] at hc
    rcases hc with hc | hc | hc | hc
    · exact Or.inl (hb c hc).isAlphanum
    · rcases hmark with rfl | rfl
      · cases hc
      · rw [List.mem_singleton.mp hc]
        exact Or.inl (by decide)
    · rcases hsign with rfl | rfl
      · cases hc
      · exact Or.inr (Or.inr (List.mem_singleton.mp hc))
    · exact Or.inl (hd c hc).isAlphanum
  · rw [hcount _ (by decide)]
    rcases hmark with rfl | rfl <;> rcases hsign with rfl | rfl <;> decide
  · rwa [List.takeWhile_eq_self_iff.mpr hall]
  · rw [List.dropWhile_eq_nil_iff.mpr hall]
    exact Nat.zero_le 1
  · intro front back heq
    rw [heq, List.count_append, List.count_cons_self] at hpoint
    omega

theorem signText_cases (negative : Bool) : signText negative = [] ∨ signText negative = ['-'] := by
  cases negative
  · exact Or.inl rfl
  · exact Or.inr rfl

/-- Among digits with a sign stands no mark. -/
theorem notMem_signed {mark : Char} (hm : mark ∈ ['r', 'e', '.']) (negative : Bool)
    (hd : ∀ c ∈ digits, IsUpperDigit c) : mark ∉ signText negative ++ digits := by
  have hmarks : ∀ x ∈ ['r', 'e', '.'], x ∈ ['r', 'e', '.', '-'] ∧ x ≠ '-' := by simp
  obtain ⟨hmark, hne⟩ := hmarks mark hm
  intro hmem
  rcases List.mem_append.mp hmem with hmem | hmem
  · rcases signText_cases negative with h | h <;> rw [h] at hmem
    · cases hmem
    · exact hne (List.mem_singleton.mp hmem)
  · exact notMem_of_isUpperDigit hd hmark hmem

/-- A numeral with a sign is a decimal literal, and its value is the double nearest to the
number. -/
theorem evaluate_signed (negative : Bool) (n : ℕ) :
    evaluate (signText negative ++ Text.ofNat n) = .ok (nearest negative n) := by
  have hno : ∀ mark ∈ ['r', 'e', '.'], mark ∉ signText negative ++ Text.ofNat n :=
    fun _ hm => notMem_signed hm negative fun _ => isUpperDigit_ofNat
  have hparts : DecimalParts (signText negative ++ Text.ofNat n)
      (signText negative ++ Text.ofNat n) none :=
    ⟨by simp [marked], hno 'r' (by decide), hno 'e' (by decide)⟩
  have hnext : NoDigitNext [] := rfl
  have hpoint : ([] : Text).head? ≠ some '.' := by simp
  have hread := decimalPrefix?_whole (isSign_signText negative) (allDigits_ofNat n)
    (ofNat_ne_nil n) hnext hpoint
  rw [List.append_nil, ofDigitChars_ofNat, ofDecimal_eq_nearest] at hread
  rw [hparts.evaluate_eq, hread]
  cases negative <;> simp [exponentPrefix, signText, scaled]

theorem withSign_nearest_natCast (negative : Bool) (hn : n < 2 * fullMantissa) :
    withSign (signText negative) (nearest false n) = nearest negative n := by
  cases negative with
  | false => rfl
  | true =>
    obtain ⟨m, q, heq, -, -⟩ := exists_ofNat_eq hn
    rw [ofNat_eq_nearest] at heq
    rw [nearest_sign true heq, heq]
    rfl

/-- **An integer literal has its integer as its value,** in every radix. -/
theorem evaluate_integerLiteral {negative : Bool} (hradix : 2 ≤ radix ∧ radix ≤ 36) (zeros : ℕ)
    (hn : n < 2 * fullMantissa) : evaluate (integerLiteral radix negative zeros n) =
      .ok (nearest negative n) := by
  obtain ⟨digits, hdigits⟩ : ∃ digits, digits = List.replicate zeros '0' ++ inBase radix n :=
    ⟨_, rfl⟩
  have hupper : ∀ c ∈ digits, IsUpperDigit c := fun _ hc => isUpperDigit_padded hradix (hdigits ▸ hc)
  have hdigitOf : ∀ c ∈ digits, IsDigitOf radix c :=
    fun _ hc => isDigitOf_padded hradix (hdigits ▸ hc)
  have hno : ∀ mark ∈ ['r', 'e', '.', '-'], mark ∉ digits :=
    fun _ hm => notMem_of_isUpperDigit hupper hm
  have hparts : RadixParts (integerLiteral radix negative zeros n) (Text.ofNat radix)
      (signText negative) digits none := by
    refine ⟨?_, notMem_of_isUpperDigit (fun _ => isUpperDigit_ofNat) (by decide), ?_, ?_⟩
    · rw [integerLiteral, hdigits, marked, Option.elim_none, List.append_nil]
    · exact notMem_signed (by decide) negative hupper
    · rcases signText_cases negative with h | h
      · exact Or.inr ⟨h, fun hhead => hno '-' (by decide) (List.mem_of_mem_head? hhead)⟩
      · exact Or.inl h
  have hcut := Text.cut_of_notMem (hno '.' (by decide))
  have hhorner := horner_inBase hradix zeros n
  rw [← hdigits] at hhorner
  have hwhole : wholeValue radix (digits.filterMap CharClass.digitValue?) = nearest false n := by
    rw [wholeValue_eq (by omega) (by unfold fullMantissa; omega) (by rwa [hhorner]), hhorner,
      ofNat_eq_nearest]
  have hmantissa : mantissaValue radix digits = nearest false n := by
    unfold mantissaValue
    rw [hcut]
    exact hwhole
  have hvalue := evaluate_eq_ok_iff.mpr (.radix hparts ⟨leadingInteger_ofNat radix, hradix⟩
    (fun c hc => hdigitOf c (List.mem_of_mem_erase hc)) .plain)
  rwa [hmantissa, withSign_nearest_natCast negative hn] at hvalue

/-! ### Integer literals are captured as a whole -/

theorem startsInteger_integerLiteral (radix : ℕ) (negative : Bool) (zeros n : ℕ) :
    StartsInteger (integerLiteral radix negative zeros n) := by
  obtain ⟨d, r, hd, hcons⟩ := exists_ofNat_eq_cons radix
  exact ⟨d, _, hd, Or.inl (by rw [integerLiteral, hcons, List.cons_append])⟩

theorem startsInteger_signed (negative : Bool) (n : ℕ) :
    StartsInteger (signText negative ++ Text.ofNat n) := by
  obtain ⟨d, r, hd, hcons⟩ := exists_ofNat_eq_cons n
  rw [hcons]
  rcases signText_cases negative with h | h <;> rw [h]
  · exact ⟨d, r, hd, Or.inl rfl⟩
  · exact ⟨d, r, hd, Or.inr rfl⟩

theorem admissible_integerLiteral (hradix : 2 ≤ radix ∧ radix ≤ 36) (negative : Bool)
    (zeros n : ℕ) : Admissible (integerLiteral radix negative zeros n) [] :=
  admissible_of_isUpperDigit (Or.inr rfl) (signText_cases negative)
    (fun _ => isUpperDigit_ofNat) fun _ => isUpperDigit_padded hradix

theorem admissible_signed (negative : Bool) (n : ℕ) :
    Admissible (signText negative ++ Text.ofNat n) [] := by
  have hbefore : ∀ c ∈ ([] : Text), IsUpperDigit c := by simp
  exact admissible_of_isUpperDigit (Or.inl rfl) (signText_cases negative) hbefore
    fun _ => isUpperDigit_ofNat

end Integer

end Numeral

open Numeral

/-- **Integer literals are exact in every radix.** An integer of at most 53 bits is scanned to one
number, its decimal numeral, whatever the radix it is written in and however many zeros stand before
its digits; a minus sign behind `r` stands before the numeral too. Scanning that numeral gives it
again. -/
theorem scan_integer {radix n : ℕ} {negative : Bool} (hradix : 2 ≤ radix ∧ radix ≤ 36)
    (hn : n < 2 ^ 53) (hpos : negative = true → 0 < n) (zeros : ℕ) (keepBlanks : Bool) :
    scan (integerLiteral radix negative zeros n) 0 keepBlanks =
        .ok ⟨[⟨.number, signText negative ++ Text.ofNat n⟩],
          (integerLiteral radix negative zeros n).byteLength⟩ ∧
      scan (signText negative ++ Text.ofNat n) 0 keepBlanks =
        .ok ⟨[⟨.number, signText negative ++ Text.ofNat n⟩],
          (signText negative ++ Text.ofNat n).byteLength⟩ := by
  have hn' : n < 2 * fullMantissa := hn
  have htext := toText_nearest_natCast hn' hpos
  constructor
  · rw [scan_literal (startsInteger_integerLiteral radix negative zeros n)
      (admissible_integerLiteral hradix negative zeros n)
      (evaluate_integerLiteral hradix zeros hn'), htext]
  · rw [scan_literal (startsInteger_signed negative n) (admissible_signed negative n)
      (evaluate_signed negative n), htext]

/-- Upper case `E` and `R` are digits, even of the largest radix. -/
theorem scan_integer_letters : integerLiteral 36 true 2 45851715 = "36r-00RARER".toList ∧
    scan (integerLiteral 36 true 2 45851715) 0 false =
      .ok ⟨[⟨.number, "-45851715".toList⟩], 11⟩ :=
  ⟨by decide +kernel, (scan_integer (by decide) (by decide) (fun _ => by decide) 2 false).1⟩

end Smalltalk
