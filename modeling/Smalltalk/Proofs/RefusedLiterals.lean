import Smalltalk.Proofs.NumeralGrammar

/-! # Which literals have a value

A literal with `r` is split at its first `r` and what follows it at its first `e`; one without `r`
is split at its first `e`. Each part can be wrong, and the parts count in a fixed order: the radix,
the digits from left to right, the exponent. `Numeral.Refused` says this of the literal alone.

* `Numeral.RadixParts`, `Numeral.DecimalParts`: the parts of a literal.
* `Numeral.radixDigits_of_forall`, `Numeral.radixDigits_append_error`: digits are read up to the
  first character that is none.
* `Numeral.evaluate_eq_error_iff`: a literal is refused exactly for the first part that is wrong,
  and has a value otherwise. -/

namespace Smalltalk.Numeral

/-! ### The parts of a literal -/

/-- The exponent with its mark, if there is one. -/
def marked (exponent : Option Text) : Text := exponent.elim [] ('e' :: ·)

/-- **The parts of a literal with `r`:** what stands before the first `r`, a minus sign or nothing,
the digits up to the first `e`, and what stands behind that. -/
structure RadixParts (literal before sign digits : Text) (exponent : Option Text) : Prop where
  eq : literal = before ++ 'r' :: (sign ++ (digits ++ marked exponent))
  radix : 'r' ∉ before
  mantissa : 'e' ∉ sign ++ digits
  sign : sign = ['-'] ∨ sign = [] ∧ digits.head? ≠ some '-'

/-- **The parts of a literal without `r`:** what stands before the first `e`, and behind it. -/
structure DecimalParts (literal mantissa : Text) (exponent : Option Text) : Prop where
  eq : literal = mantissa ++ marked exponent
  radix : 'r' ∉ literal
  mantissa : 'e' ∉ mantissa

/-- An integer from 2 to 36 leads the text. -/
def HasRadix (t : Text) (radix : Nat) : Prop := LeadingInteger t radix ∧ 2 ≤ radix ∧ radix ≤ 36

/-- A digit, or a letter in either case, whose value is below the radix. -/
def IsDigitOf (radix : Nat) (c : Char) : Prop := ∃ v ∈ CharClass.digitValue? c, v < radix

instance (radix : Nat) (c : Char) : Decidable (IsDigitOf radix c) :=
  decidable_of_iff ((CharClass.digitValue? c).any (· < radix)) <| by
    rw [Option.any_eq_true]
    simp [IsDigitOf]

/-- **Why a literal has no value.** A later reason counts only if no earlier one does. -/
inductive Refused (literal : Text) : ScanError → Prop
  /-- No integer from 2 to 36 leads the text before `r`. -/
  | radix {before sign digits : Text} {exponent : Option Text}
    (hparts : RadixParts literal before sign digits exponent) (hno : ∀ n, ¬ HasRadix before n) :
    Refused literal ⟨.invalidRadix before, 0⟩
  /-- The first character that is no digit of the radix, the first point apart. -/
  | digit {before sign front back : Text} {d : Char} {exponent : Option Text} {n : Nat}
    (hparts : RadixParts literal before sign (front ++ d :: back) exponent)
    (hradix : HasRadix before n) (hfront : ∀ c ∈ front.erase '.', IsDigitOf n c)
    (hd : ¬ IsDigitOf n d) (hpoint : d = '.' → '.' ∈ front) :
    Refused literal ⟨.invalidDigit d n, (before ++ 'r' :: (sign ++ front)).byteLength⟩
  /-- No integer stands behind `e`. -/
  | power {before sign digits exponent : Text} {n : Nat}
    (hparts : RadixParts literal before sign digits (some exponent)) (hradix : HasRadix before n)
    (hdigits : ∀ c ∈ digits.erase '.', IsDigitOf n c) (hno : ¬ StartsSigned exponent) :
    Refused literal ⟨.malformedNumber literal, (before ++ 'r' :: (sign ++ digits)).byteLength⟩
  /-- A decimal literal does not start with a number. -/
  | mantissa {mantissa : Text} {exponent : Option Text}
    (hparts : DecimalParts literal mantissa exponent) (hno : ¬ StartsDecimal mantissa) :
    Refused literal ⟨.malformedNumber literal, 0⟩
  /-- No integer stands behind the `e` of a decimal literal. -/
  | exponent {mantissa exponent : Text} (hparts : DecimalParts literal mantissa (some exponent))
    (hstart : StartsDecimal mantissa) (hno : ¬ StartsSigned exponent) :
    Refused literal ⟨.malformedNumber literal, mantissa.byteLength⟩

/-! ### The radix -/

section Radix

variable {t before sign digits : Text} {n : Nat}

theorem radix?_eq_some_iff : radix? t = some n ↔ HasRadix t n := by
  unfold radix? HasRadix
  rw [← integerPrefix?_eq_some_iff]
  constructor
  · intro h
    obtain ⟨m, hm, hn⟩ := Option.bind_eq_some_iff.mp h
    split at hn
    · next hrange =>
      obtain rfl := Option.some.inj hn
      rw [hm, Int.toNat_of_nonneg (by omega)]
      refine ⟨rfl, ?_, ?_⟩ <;> omega
    · cases hn
  · rintro ⟨hm, hlow, hhigh⟩
    rw [hm, Option.bind_some, if_pos (by omega), Int.toNat_natCast]

theorem radix?_eq_none_iff : radix? t = none ↔ ∀ n, ¬ HasRadix t n := by
  simp only [← radix?_eq_some_iff]
  exact Option.eq_none_iff_forall_ne_some

end Radix

/-! ### Digits -/

section Digits

variable {n offset : Nat} {t front back : Text} {d : Char} {e : ScanError}

theorem radixDigits_cons {c : Char} {v : Nat} (hv : CharClass.digitValue? c = some v) (h : v < n)
    (t : Text) : radixDigits n offset (c :: t) =
      (radixDigits n (offset + c.utf8Size) t).map (v :: ·) := by
  rw [radixDigits, hv]
  dsimp only
  rw [if_pos h]
  rcases radixDigits n (offset + c.utf8Size) t with e | ds <;> rfl

theorem radixDigits_cons_error (h : ¬ IsDigitOf n d) (t : Text) :
    radixDigits n offset (d :: t) = .error ⟨.invalidDigit d n, offset⟩ := by
  rw [radixDigits]
  rcases hv : CharClass.digitValue? d with _ | v
  · rfl
  · dsimp only
    rw [if_neg]
    · rfl
    · exact fun hlt => h ⟨v, hv, hlt⟩

/-- **Digits are read** one by one. -/
theorem radixDigits_of_forall (h : ∀ c ∈ t, IsDigitOf n c) :
    radixDigits n offset t = .ok (t.filterMap CharClass.digitValue?) := by
  induction t generalizing offset with
  | nil => rfl
  | cons c t ih =>
    obtain ⟨v, hv, hlt⟩ := h c List.mem_cons_self
    have htail := @ih (offset + c.utf8Size) fun d hd => h d (List.mem_cons_of_mem c hd)
    rw [radixDigits_cons hv hlt, htail, List.filterMap_cons_some hv]
    rfl

/-- **The first character that is no digit is refused,** with its own offset. -/
theorem radixDigits_append_error (hfront : ∀ c ∈ front, IsDigitOf n c) (hd : ¬ IsDigitOf n d) :
    radixDigits n offset (front ++ d :: back) =
      .error ⟨.invalidDigit d n, offset + front.byteLength⟩ := by
  induction front generalizing offset with
  | nil => exact radixDigits_cons_error hd back
  | cons c front ih =>
    obtain ⟨v, hv, hlt⟩ := hfront c List.mem_cons_self
    have htail := @ih (offset + c.utf8Size) fun d hd => hfront d (List.mem_cons_of_mem c hd)
    rw [List.cons_append, radixDigits_cons hv hlt, htail, Text.byteLength_cons, Nat.add_assoc]
    rfl

theorem exists_first_not_digit (h : ¬ ∀ c ∈ t, IsDigitOf n c) : ∃ (front : Text) (d : Char)
    (back : Text), t = front ++ d :: back ∧ (∀ c ∈ front, IsDigitOf n c) ∧ ¬ IsDigitOf n d := by
  induction t with
  | nil => exact absurd (by simp) h
  | cons c t ih =>
    by_cases hc : IsDigitOf n c
    · obtain ⟨front, d, back, rfl, hfront, hd⟩ := ih (by simpa [hc] using h)
      exact ⟨c :: front, d, back, rfl, by simpa [hc] using hfront, hd⟩
    · exact ⟨[], c, t, rfl, by simp, hc⟩

end Digits

/-! ### Digits with a point -/

section Mantissa

variable {n start : Nat} {digits front back : Text} {d : Char}

/-- The digits before the first point and those behind it, as the evaluation reads them. -/
def mantissaDigits (n start : Nat) (digits : Text) : Except ScanError (List Nat × List Nat) := do
  let whole ← radixDigits n start (digits.cut '.').1
  let fraction ← radixDigits n (start + (digits.cut '.').1.byteLength + 1)
    ((digits.cut '.').2.getD [])
  return (whole, fraction)

theorem erase_eq_cut (c : Char) (t : Text) : t.erase c = (t.cut c).1 ++ (t.cut c).2.getD [] := by
  induction t with
  | nil => rfl
  | cons d t ih =>
    by_cases hd : d = c
    · simp [Text.cut, hd]
    · rw [Text.cut_cons_of_ne hd, List.erase_cons_tail (by simpa using hd), ih]
      rfl

theorem exists_cut {c : Char} {t : Text} (h : c ∈ t) :
    ∃ before after, t = before ++ c :: after ∧ c ∉ before := by
  rcases hc : t.cut c with ⟨before, _ | after⟩
  · have hno := Text.notMem_cut c t
    rw [hc, ← Text.cut_eq_none hc] at hno
    exact absurd h hno
  · have hno := Text.notMem_cut c t
    rw [hc] at hno
    exact ⟨before, after, Text.cut_eq_some hc, hno⟩

theorem erase_append_cut {c : Char} (h : c ∉ front) (back : Text) :
    (front ++ c :: back).erase c = front ++ back := by
  rw [List.erase_append_right _ h, List.erase_cons_head]

/-- Digits with one point among them are read. -/
theorem mantissaDigits_of_forall (h : ∀ c ∈ digits.erase '.', IsDigitOf n c) :
    mantissaDigits n start digits = .ok ((digits.cut '.').1.filterMap CharClass.digitValue?,
      ((digits.cut '.').2.getD []).filterMap CharClass.digitValue?) := by
  rw [erase_eq_cut] at h
  unfold mantissaDigits
  rw [radixDigits_of_forall fun c hc => h c (List.mem_append_left _ hc),
    radixDigits_of_forall fun c hc => h c (List.mem_append_right _ hc)]
  rfl

/-- The first character that is no digit is refused, the first point apart. -/
theorem mantissaDigits_append_error (hfront : ∀ c ∈ front.erase '.', IsDigitOf n c)
    (hd : ¬ IsDigitOf n d) (hpoint : d = '.' → '.' ∈ front) :
    mantissaDigits n start (front ++ d :: back) =
      .error ⟨.invalidDigit d n, start + front.byteLength⟩ := by
  unfold mantissaDigits
  by_cases hmem : '.' ∈ front
  · obtain ⟨whole, fraction, rfl, hno⟩ := exists_cut hmem
    rw [erase_append_cut hno] at hfront
    rw [List.append_assoc, List.cons_append, Text.cut_append hno, Text.cut_cons_self,
      List.append_nil, Option.getD_some,
      radixDigits_of_forall fun c hc => hfront c (List.mem_append_left _ hc),
      radixDigits_append_error (fun c hc => hfront c (List.mem_append_right _ hc)) hd,
      Text.byteLength_append, Text.byteLength_cons, Nat.add_assoc start, Nat.add_assoc,
      Nat.add_assoc]
    rfl
  · rw [List.erase_of_not_mem hmem] at hfront
    have hd' : d ≠ '.' := fun h => hmem (hpoint h)
    rw [Text.cut_append hmem, Text.cut_cons_of_ne hd', radixDigits_append_error hfront hd]
    rfl

/-- Digits are all right, or one of their characters is the first that is not. -/
theorem digits_cases (n : Nat) (digits : Text) : (∀ c ∈ digits.erase '.', IsDigitOf n c) ∨
    ∃ (front : Text) (d : Char) (back : Text), digits = front ++ d :: back ∧
      (∀ c ∈ front.erase '.', IsDigitOf n c) ∧ ¬ IsDigitOf n d ∧ (d = '.' → '.' ∈ front) := by
  by_cases hpoint : '.' ∈ digits
  · obtain ⟨whole, fraction, rfl, hno⟩ := exists_cut hpoint
    rw [erase_append_cut hno]
    by_cases hwhole : ∀ c ∈ whole, IsDigitOf n c
    · by_cases hfraction : ∀ c ∈ fraction, IsDigitOf n c
      · refine Or.inl fun c hc => ?_
        rcases List.mem_append.mp hc with hc | hc
        · exact hwhole c hc
        · exact hfraction c hc
      · obtain ⟨front, d, back, rfl, hfront, hd⟩ := exists_first_not_digit hfraction
        refine Or.inr ⟨whole ++ '.' :: front, d, back, by simp, ?_, hd, fun _ => by simp⟩
        rw [erase_append_cut hno]
        intro c hc
        rcases List.mem_append.mp hc with hc | hc
        · exact hwhole c hc
        · exact hfront c hc
    · obtain ⟨front, d, back, rfl, hfront, hd⟩ := exists_first_not_digit hwhole
      refine Or.inr ⟨front, d, back ++ '.' :: fraction, by simp, ?_, hd, ?_⟩
      · exact fun c hc => hfront c (List.mem_of_mem_erase hc)
      · rintro rfl
        exact absurd (by simp) hno
  · by_cases hdigits : ∀ c ∈ digits, IsDigitOf n c
    · exact Or.inl fun c hc => hdigits c (List.mem_of_mem_erase hc)
    · obtain ⟨front, d, back, rfl, hfront, hd⟩ := exists_first_not_digit hdigits
      refine Or.inr ⟨front, d, back, rfl, fun c hc => hfront c (List.mem_of_mem_erase hc), hd, ?_⟩
      rintro rfl
      exact absurd (by simp) hpoint

end Mantissa

/-! ### The evaluation, part by part -/

section Parts

variable {literal before sign digits mantissa : Text} {exponent : Option Text} {n : Nat}

theorem cut_marked (h : 'e' ∉ mantissa) (exponent : Option Text) :
    (mantissa ++ marked exponent).cut 'e' = (mantissa, exponent) := by
  rcases exponent with _ | exponent
  · rw [marked, Option.elim_none, List.append_nil, Text.cut_of_notMem h]
  · rw [marked, Option.elim_some, Text.cut_append h, Text.cut_cons_self, List.append_nil]

/-- A text is what stands before its first `e`, and from that on. -/
theorem cut_append_marked (t : Text) : (t.cut 'e').1 ++ marked (t.cut 'e').2 = t := by
  rcases hcut : t.cut 'e' with ⟨mantissa, _ | exponent⟩
  · rw [marked, Option.elim_none, List.append_nil, Text.cut_eq_none hcut]
  · exact (Text.cut_eq_some hcut).symm

/-- The value scaled by the power of the radix that the exponent says, if there is one. -/
def scaled (n : Nat) (value : Double) (exponent : Option Text) (fault : ScanError) :
    Except ScanError Double :=
  match exponent with
  | none => .ok value
  | some exponent =>
    match integerPrefix? exponent with
    | some e => .ok (value * Double.power n e)
    | none => .error fault

/-- A double with the sign before the digits. -/
def withSign (sign : Text) (value : Double) : Double := if sign = ['-'] then -value else value

theorem RadixParts.head?_eq_iff (h : RadixParts literal before sign digits exponent) :
    (sign ++ digits).head? = some '-' ↔ sign = ['-'] := by
  rcases h.sign with rfl | ⟨rfl, hhead⟩
  · exact ⟨fun _ => rfl, fun _ => rfl⟩
  · exact ⟨fun h => absurd h hhead, nofun⟩

theorem RadixParts.evaluate_eq (h : RadixParts literal before sign digits exponent) :
    evaluate literal = inRadix literal before (sign ++ (digits ++ marked exponent)) := by
  have hcut : literal.cut 'r' = (before, some (sign ++ (digits ++ marked exponent))) := by
    rw [h.eq, Text.cut_append h.radix, Text.cut_cons_self, List.append_nil]
  unfold evaluate
  rw [hcut]

theorem RadixParts.evaluate_of_none (h : RadixParts literal before sign digits exponent)
    (hn : radix? before = none) : evaluate literal = .error ⟨.invalidRadix before, 0⟩ := by
  rw [h.evaluate_eq]
  unfold inRadix
  simp only [hn]
  rfl

theorem RadixParts.evaluate_of_some (h : RadixParts literal before sign digits exponent)
    (hn : radix? before = some n) : evaluate literal =
      (mantissaDigits n (before ++ 'r' :: sign).byteLength digits).bind fun values =>
        (scaled n (addFraction n 1 (wholeValue n values.1) values.2) exponent
          ⟨.malformedNumber literal, (before ++ 'r' :: (sign ++ digits)).byteLength⟩).map
            (withSign sign) := by
  have hcut := cut_marked h.mantissa exponent
  rw [List.append_assoc] at hcut
  have hoff : ∀ t : Text, (before ++ 'r' :: t).byteLength =
      before.byteLength + 1 + t.byteLength := by
    intro t
    rw [Text.byteLength_append, Text.byteLength_cons, Nat.add_assoc]
    rfl
  have hneg := h.head?_eq_iff
  have hdigits : (if sign = ['-'] then (sign ++ digits).drop 1 else sign ++ digits) = digits := by
    rcases h.sign with rfl | ⟨rfl, -⟩ <;> rfl
  have hstart : (if sign = ['-'] then before.byteLength + 1 + 1 else before.byteLength + 1) =
      before.byteLength + 1 + sign.byteLength := by
    rcases h.sign with rfl | ⟨rfl, -⟩ <;> rfl
  rw [h.evaluate_eq, hoff, hoff]
  unfold inRadix mantissaDigits
  simp only [hn, hcut, hdigits, hstart, hneg]
  rcases radixDigits n _ (digits.cut '.').1 with e | whole
  · rfl
  rcases radixDigits n _ ((digits.cut '.').2.getD []) with e | fraction
  · rfl
  rcases exponent with _ | exponent
  · rfl
  dsimp only [Except.bind, bind, pure, Except.pure]
  rw [scaled]
  rcases integerPrefix? exponent with _ | e <;> rfl

theorem DecimalParts.evaluate_eq (h : DecimalParts literal mantissa exponent) :
    evaluate literal = match decimalPrefix? mantissa with
      | none => .error ⟨.malformedNumber literal, 0⟩
      | some base =>
        scaled 10 base exponent ⟨.malformedNumber literal, mantissa.byteLength⟩ := by
  have hcut : literal.cut 'e' = (mantissa, exponent) := by rw [h.eq, cut_marked h.mantissa]
  unfold evaluate decimal
  rw [Text.cut_of_notMem h.radix]
  dsimp only
  rw [hcut]
  rcases decimalPrefix? mantissa with _ | base
  · rfl
  rcases exponent with _ | exponent
  · rfl
  dsimp only
  rw [scaled]
  rcases integerPrefix? exponent with _ | e <;> rfl

/-- **Every literal has parts,** with a radix or without. -/
theorem exists_parts (literal : Text) :
    (∃ before sign digits exponent, RadixParts literal before sign digits exponent) ∨
      ∃ mantissa exponent, DecimalParts literal mantissa exponent := by
  by_cases hr : 'r' ∈ literal
  · obtain ⟨before, body, rfl, hbefore⟩ := exists_cut hr
    obtain ⟨mantissa, exponent, rfl, hno⟩ : ∃ mantissa exponent,
        body = mantissa ++ marked exponent ∧ 'e' ∉ mantissa :=
      ⟨_, _, (cut_append_marked body).symm, Text.notMem_cut 'e' body⟩
    refine Or.inl ?_
    by_cases hminus : mantissa.head? = some '-'
    · obtain ⟨digits, rfl⟩ := List.head?_eq_some_iff.mp hminus
      exact ⟨before, ['-'], digits, exponent, rfl, hbefore, hno, Or.inl rfl⟩
    · exact ⟨before, [], mantissa, exponent, rfl, hbefore, hno, Or.inr ⟨rfl, hminus⟩⟩
  · exact Or.inr ⟨_, _, (cut_append_marked literal).symm, hr, Text.notMem_cut 'e' literal⟩

end Parts

/-! ### The reasons in their order -/

section Refused

variable {literal : Text} {e : ScanError}

theorem Refused.evaluate_eq (h : Refused literal e) : evaluate literal = .error e := by
  cases h with
  | radix hparts hno => exact hparts.evaluate_of_none (radix?_eq_none_iff.mpr hno)
  | digit hparts hradix hfront hd hpoint =>
    rw [hparts.evaluate_of_some (radix?_eq_some_iff.mpr hradix),
      mantissaDigits_append_error hfront hd hpoint, ← Text.byteLength_append, List.append_assoc]
    rfl
  | power hparts hradix hdigits hno =>
    rw [hparts.evaluate_of_some (radix?_eq_some_iff.mpr hradix), mantissaDigits_of_forall hdigits]
    dsimp only [Except.bind]
    rw [scaled, integerPrefix?_eq_none_iff.mpr hno]
    rfl
  | mantissa hparts hno =>
    rw [hparts.evaluate_eq, decimalPrefix?_eq_none_iff.mpr hno]
  | exponent hparts hstart hno =>
    rw [hparts.evaluate_eq]
    rcases hbase : decimalPrefix? _ with _ | base
    · exact absurd hstart (decimalPrefix?_eq_none_iff.mp hbase)
    · dsimp only
      rw [scaled, integerPrefix?_eq_none_iff.mpr hno]

theorem refused_of_radixParts {before sign digits : Text} {exponent : Option Text}
    (hparts : RadixParts literal before sign digits exponent) (h : evaluate literal = .error e) :
    Refused literal e := by
  rcases hr : radix? before with _ | n
  · rw [hparts.evaluate_of_none hr] at h
    rw [← Except.error.inj h]
    exact .radix hparts (radix?_eq_none_iff.mp hr)
  have hradix := radix?_eq_some_iff.mp hr
  rw [hparts.evaluate_of_some hr] at h
  rcases digits_cases n digits with hdigits | ⟨front, d, back, rfl, hfront, hd, hpoint⟩
  · rw [mantissaDigits_of_forall hdigits] at h
    dsimp only [Except.bind] at h
    rcases exponent with _ | exponent
    · cases h
    rcases hpower : integerPrefix? exponent with _ | n <;> rw [scaled, hpower] at h
    · rw [← Except.error.inj h]
      exact .power hparts hradix hdigits (integerPrefix?_eq_none_iff.mp hpower)
    · cases h
  · rw [mantissaDigits_append_error hfront hd hpoint] at h
    rw [← Except.error.inj h, ← Text.byteLength_append, List.append_assoc]
    exact .digit hparts hradix hfront hd hpoint

theorem refused_of_decimalParts {mantissa : Text} {exponent : Option Text}
    (hparts : DecimalParts literal mantissa exponent) (h : evaluate literal = .error e) :
    Refused literal e := by
  rw [hparts.evaluate_eq] at h
  rcases hbase : decimalPrefix? mantissa with _ | base <;> rw [hbase] at h
  · rw [← Except.error.inj h]
    exact .mantissa hparts (decimalPrefix?_eq_none_iff.mp hbase)
  dsimp only at h
  rcases exponent with _ | exponent
  · cases h
  rcases hpower : integerPrefix? exponent with _ | n <;> rw [scaled, hpower] at h
  · rw [← Except.error.inj h]
    refine .exponent hparts ?_ (integerPrefix?_eq_none_iff.mp hpower)
    exact startsDecimal_of_decimalPrefix? hbase
  · cases h

theorem refused_of_evaluate (h : evaluate literal = .error e) : Refused literal e := by
  rcases exists_parts literal with ⟨_, _, _, _, hparts⟩ | ⟨_, _, hparts⟩
  · exact refused_of_radixParts hparts h
  · exact refused_of_decimalParts hparts h

end Refused

/-- **A literal is refused exactly for the first of its parts that is wrong,** and has a value if
none is. -/
theorem evaluate_eq_error_iff (literal : Text) :
    (∀ e, evaluate literal = .error e ↔ Refused literal e) ∧
      ((∃ v, evaluate literal = .ok v) ↔ ∀ e, ¬ Refused literal e) := by
  have hrefused : ∀ e, evaluate literal = .error e ↔ Refused literal e :=
    fun e => ⟨refused_of_evaluate, Refused.evaluate_eq⟩
  refine ⟨hrefused, ?_⟩
  simp only [← hrefused]
  rcases evaluate literal with e | v
  · simp
  · simp

end Smalltalk.Numeral
