import Smalltalk.Proofs.IntegerLiterals
import Smalltalk.Proofs.NumberText

/-! # Digits in upper and in lower case

The letters of a literal with a radix are digits in either case, but a lower case `e` is the mark of
an exponent and a lower case `r` is a second mark of the radix. So the case of a letter does not
count, `E` and `R` apart: two texts that differ in the case of other letters are captured alike,
their parts have the same lengths and the same values, and only a fault that quotes the literal
quotes it as it is written.

* `Numeral.SameDigit`: the same character, or a letter other than `E` and `R` in either case.
* `Reading.capture_congr`, `Numeral.evaluate_congr`: what depends on the characters, step by step.
* `scan_radixLiteral_congr`: hence the case does not count, and digits without marks are scanned to
  one number. -/

namespace Smalltalk

/-- The same error, with the literal that it quotes, if it quotes one, replaced. -/
def ScanError.about (e : ScanError) (literal : Text) : ScanError :=
  match e.fault with
  | .malformedNumber _ => ⟨.malformedNumber literal, e.offset⟩
  | _ => e

namespace Numeral

/-- A radix, `r`, and what stands behind it. -/
def radixLiteral (radix : ℕ) (digits : Text) : Text := Text.ofNat radix ++ 'r' :: digits

/-- The same character, or a letter other than `E` and `R` in upper and in lower case. -/
def SameDigit (c d : Char) : Prop :=
  c = d ∨ c.toLower = d.toLower ∧ c.toLower ≠ 'e' ∧ c.toLower ≠ 'r'

instance (c d : Char) : Decidable (SameDigit c d) := inferInstanceAs (Decidable (_ ∨ _))

/-! ### Two cases of a letter -/

section Letters

variable {c d : Char}

/-- An upper case letter is made a lower case one, other characters stay. -/
theorem toLower_cases (c : Char) : c.toLower = c ∨
    ∃ i < 26, c = Char.ofNat (65 + i) ∧ c.toLower = Char.ofNat (97 + i) := by
  by_cases h : c.val ≥ 'A'.val ∧ c.val ≤ 'Z'.val
  · have hrange : 65 ≤ c.toNat ∧ c.toNat ≤ 90 := by
      simpa [UInt32.le_iff_toNat_le] using h
    obtain ⟨i, hi⟩ : ∃ i, c.toNat = 65 + i := ⟨c.toNat - 65, by omega⟩
    have hc : c = Char.ofNat (65 + i) := by rw [← hi, Char.ofNat_toNat]
    have hall : ∀ i < 26, (Char.ofNat (65 + i)).toLower = Char.ofNat (97 + i) := by decide
    refine Or.inr ⟨i, by omega, hc, ?_⟩
    rw [hc]
    exact hall i (by omega)
  · left
    unfold Char.toLower
    rw [dif_neg h]

/-- What holds of equal characters and of the two cases of a letter holds of the same digits. The
letters are given by their places in the alphabet, which are 4 for `E` and 17 for `R`. -/
@[elab_as_elim]
theorem SameDigit.elim {motive : Char → Char → Prop} (h : SameDigit c d)
    (refl : ∀ c, motive c c)
    (lower : ∀ i < 26, i ≠ 4 ∧ i ≠ 17 → motive (Char.ofNat (65 + i)) (Char.ofNat (97 + i)))
    (upper : ∀ i < 26, i ≠ 4 ∧ i ≠ 17 → motive (Char.ofNat (97 + i)) (Char.ofNat (65 + i))) :
    motive c d := by
  rcases h with rfl | ⟨hsame, hmarks⟩
  · exact refl c
  have hplace : ∀ i < 26, Char.ofNat (97 + i) ≠ 'e' ∧ Char.ofNat (97 + i) ≠ 'r' →
      i ≠ 4 ∧ i ≠ 17 := by decide
  rcases toLower_cases c with hc | ⟨i, hi, hc, hc'⟩ <;>
    rcases toLower_cases d with hd | ⟨j, hj, hd, hd'⟩
  · rw [← hc, hsame, hd]
    exact refl d
  · rw [hc] at hsame hmarks
    rw [hsame, hd'] at hmarks ⊢
    rw [hd]
    exact upper j hj (hplace j hj hmarks)
  · rw [hd] at hsame
    rw [hc'] at hsame hmarks
    rw [← hsame, hc]
    exact lower i hi (hplace i hi hmarks)
  · have hinj : ∀ i < 26, ∀ j < 26, Char.ofNat (97 + i) = Char.ofNat (97 + j) → i = j := by decide
    rw [hc', hd'] at hsame
    rw [hc, hd, hinj i hi j hj hsame]
    exact refl _

theorem SameDigit.digitValue?_eq (h : SameDigit c d) :
    CharClass.digitValue? c = CharClass.digitValue? d :=
  h.elim (fun _ => rfl) (by decide) (by decide)

theorem SameDigit.isAlphanum_eq (h : SameDigit c d) : c.isAlphanum = d.isAlphanum :=
  h.elim (fun _ => rfl) (by decide) (by decide)

theorem SameDigit.utf8Size_eq (h : SameDigit c d) : c.utf8Size = d.utf8Size :=
  h.elim (fun _ => rfl) (by decide) (by decide)

theorem SameDigit.eq_radix_iff (h : SameDigit c d) : c = 'r' ↔ d = 'r' :=
  h.elim (fun _ => Iff.rfl) (by decide) (by decide)

theorem SameDigit.eq_exponent_iff (h : SameDigit c d) : c = 'e' ↔ d = 'e' :=
  h.elim (fun _ => Iff.rfl) (by decide) (by decide)

/-- The decimal digits have one form only. -/
theorem SameDigit.eq_or_not_isDigit (h : SameDigit c d) :
    c = d ∨ c.isDigit = false ∧ d.isDigit = false :=
  h.elim (fun _ => Or.inl rfl) (by decide) (by decide)

/-- A digit of a radix is a letter or a decimal digit. -/
theorem IsDigitOf.isAlphanum {radix : ℕ} (h : IsDigitOf radix c) : c.isAlphanum := by
  obtain ⟨v, hv, -⟩ := h
  show (c.isUpper || c.isLower || c.isDigit) = true
  unfold CharClass.digitValue? at hv
  split at hv
  · simp [*]
  · split at hv
    · simp [*]
    · split at hv
      · simp [*]
      · cases hv

end Letters

/-! ### The same digits -/

section Texts

variable {t u : Text} (h : List.Forall₂ SameDigit t u)
include h

theorem filterMap_digitValue?_congr :
    t.filterMap CharClass.digitValue? = u.filterMap CharClass.digitValue? := by
  induction h with
  | nil => rfl
  | cons hc _ ih => rw [List.filterMap_cons, List.filterMap_cons, ih, hc.digitValue?_eq]

theorem byteLength_congr : t.byteLength = u.byteLength := by
  induction h with
  | nil => rfl
  | cons hc _ ih => rw [Text.byteLength_cons, Text.byteLength_cons, ih, hc.utf8Size_eq]

/-- What does not depend on the case holds of all characters of both. -/
theorem forall_of_sameDigit {p : Char → Prop} (hp : ∀ c d, SameDigit c d → p c → p d)
    (ht : ∀ c ∈ t, p c) : ∀ c ∈ u, p c := by
  induction h with
  | nil => exact ht
  | cons hc _ ih =>
    rw [List.forall_mem_cons] at ht ⊢
    exact ⟨hp _ _ hc ht.1, ih ht.2⟩

theorem forall_isAlphanum_congr (ht : ∀ c ∈ t, c.isAlphanum) : ∀ c ∈ u, c.isAlphanum :=
  forall_of_sameDigit h (fun _ _ hc hp => hc.isAlphanum_eq ▸ hp) ht

theorem forall_isDigitOf_congr {radix : ℕ} (ht : ∀ c ∈ t, IsDigitOf radix c) :
    ∀ c ∈ u, IsDigitOf radix c := by
  refine forall_of_sameDigit h (fun c d hc hp => ?_) ht
  unfold IsDigitOf
  rwa [← hc.digitValue?_eq]

theorem forall₂_radixLiteral (radix : ℕ) :
    List.Forall₂ SameDigit (radixLiteral radix t) (radixLiteral radix u) := by
  have hrefl : List.Forall₂ SameDigit (Text.ofNat radix) (Text.ofNat radix) :=
    List.forall₂_same.mpr fun _ _ => Or.inl rfl
  exact List.rel_append hrefl (.cons (Or.inl rfl) h)

theorem takeWhile_isDigit_congr : t.takeWhile Char.isDigit = u.takeWhile Char.isDigit := by
  induction h with
  | nil => rfl
  | cons hc _ ih =>
    rcases hc.eq_or_not_isDigit with rfl | ⟨hc, hd⟩
    · rw [List.takeWhile_cons, List.takeWhile_cons, ih]
    · rw [List.takeWhile_cons_of_neg (by simp [hc]), List.takeWhile_cons_of_neg (by simp [hd])]

/-- They have their first `e` at the same place. -/
theorem cut_exponent_congr : List.Forall₂ SameDigit (t.cut 'e').1 (u.cut 'e').1 ∧
    Option.Rel (List.Forall₂ SameDigit) (t.cut 'e').2 (u.cut 'e').2 := by
  induction h with
  | nil => exact ⟨.nil, .none⟩
  | @cons c d t u hc htail ih =>
    by_cases he : c = 'e'
    · obtain rfl : d = 'e' := hc.eq_exponent_iff.mp he
      subst he
      rw [Text.cut_cons_self, Text.cut_cons_self]
      exact ⟨.nil, .some htail⟩
    · rw [Text.cut_cons_of_ne he, Text.cut_cons_of_ne (he ∘ hc.eq_exponent_iff.mpr)]
      exact ⟨.cons hc ih.1, ih.2⟩

end Texts

/-- No mark but `r` and `e` stands among letters and digits. -/
theorem notMem_of_isAlphanum {t : Text} {mark : Char} (ht : ∀ c ∈ t, c.isAlphanum)
    (hmark : mark.isAlphanum = false) : mark ∉ t := by
  intro hmem
  have halnum := ht mark hmem
  rw [hmark] at halnum
  cases halnum

theorem cutSign_of_isAlphanum {t : Text} (ht : ∀ c ∈ t, c.isAlphanum) : cutSign t = (false, t) := by
  have hhead : ∀ c, c.isAlphanum = false → t.head? ≠ some c :=
    fun c hc heq => notMem_of_isAlphanum ht hc (List.mem_of_mem_head? heq)
  exact cutSign_append (Or.inl rfl) ⟨hhead '-' (by decide), hhead '+' (by decide)⟩

theorem integerPrefix?_congr {t u : Text} (h : List.Forall₂ SameDigit t u)
    (ht : ∀ c ∈ t, c.isAlphanum) : integerPrefix? t = integerPrefix? u := by
  unfold integerPrefix?
  rw [cutSign_of_isAlphanum ht, cutSign_of_isAlphanum (forall_isAlphanum_congr h ht)]
  dsimp only
  rw [takeWhile_isDigit_congr h]

/-! ### The value -/

section Value

variable {radix : ℕ} {digits other : Text} (hradix : 2 ≤ radix ∧ radix ≤ 36)
  (hdigits : ∀ c ∈ digits, IsDigitOf radix c)
include hradix hdigits

/-- The digits before the first `e` are the mantissa, and what stands behind it the exponent. -/
theorem evaluate_radixLiteral : evaluate (radixLiteral radix digits) =
    scaled radix (wholeValue radix ((digits.cut 'e').1.filterMap CharClass.digitValue?))
      (digits.cut 'e').2 ⟨.malformedNumber (radixLiteral radix digits),
        (radixLiteral radix (digits.cut 'e').1).byteLength⟩ := by
  have hsplit := cut_append_marked digits
  have hmantissa : ∀ c ∈ (digits.cut 'e').1, IsDigitOf radix c := by
    intro c hc
    rw [← hsplit] at hdigits
    exact hdigits c (List.mem_append_left _ hc)
  have hno : ∀ mark, mark.isAlphanum = false → mark ∉ (digits.cut 'e').1 :=
    fun _ hmark => notMem_of_isAlphanum (fun c hc => (hmantissa c hc).isAlphanum) hmark
  have hparts : RadixParts (radixLiteral radix digits) (Text.ofNat radix) [] (digits.cut 'e').1
      (digits.cut 'e').2 := by
    refine ⟨?_, ?_, Text.notMem_cut 'e' digits, Or.inr ⟨rfl, fun hhead => ?_⟩⟩
    · rw [List.nil_append, hsplit, radixLiteral]
    · exact notMem_of_isUpperDigit (fun _ => isUpperDigit_ofNat) (by decide)
    · exact hno '-' (by decide) (List.mem_of_mem_head? hhead)
  have hvalue : mantissaValue radix (digits.cut 'e').1 =
      wholeValue radix ((digits.cut 'e').1.filterMap CharClass.digitValue?) := by
    unfold mantissaValue
    rw [Text.cut_of_notMem (hno '.' (by decide))]
    rfl
  have hsign : withSign [] = id := rfl
  rw [hparts.evaluate_of_digits ⟨leadingInteger_ofNat radix, hradix⟩
    fun c hc => hmantissa c (List.mem_of_mem_erase hc), hvalue, hsign, Except.map_id]
  rfl

/-- **The same digits have the same value,** or the same part of them is wrong. -/
theorem evaluate_congr (h : List.Forall₂ SameDigit digits other) :
    evaluate (radixLiteral radix other) =
      (evaluate (radixLiteral radix digits)).mapError (·.about (radixLiteral radix other)) := by
  obtain ⟨hmantissa, hexponent⟩ := cut_exponent_congr h
  have hexponents : ∀ x ∈ (digits.cut 'e').2, ∀ c ∈ x, c.isAlphanum := by
    intro x hx c hc
    have hsplit := cut_append_marked digits
    rw [hx] at hsplit
    rw [← hsplit] at hdigits
    exact (hdigits c (List.mem_append_right _ (List.mem_cons_of_mem _ hc))).isAlphanum
  rw [evaluate_radixLiteral hradix hdigits,
    evaluate_radixLiteral hradix (forall_isDigitOf_congr h hdigits),
    filterMap_digitValue?_congr hmantissa, byteLength_congr (forall₂_radixLiteral hmantissa radix)]
  generalize (digits.cut 'e').2 = exponent at hexponent hexponents
  generalize (other.cut 'e').2 = exponent' at hexponent
  cases hexponent with
  | none => rfl
  | some hsame =>
    rw [scaled, scaled, integerPrefix?_congr hsame (hexponents _ rfl)]
    rcases integerPrefix? _ with _ | e <;> rfl

end Value

theorem isAlphanum_radixLiteral {radix : ℕ} {digits : Text}
    (hdigits : ∀ c ∈ digits, IsDigitOf radix c) :
    ∀ c ∈ radixLiteral radix digits, c.isAlphanum := by
  intro c hc
  rcases List.mem_append.mp hc with hc | hc
  · exact (isUpperDigit_ofNat hc).isAlphanum
  · rcases List.mem_cons.mp hc with rfl | hc
    · decide
    · exact (hdigits c hc).isAlphanum

theorem startsInteger_radixLiteral (radix : ℕ) (digits : Text) :
    StartsInteger (radixLiteral radix digits) := by
  obtain ⟨d, r, hd, hcons⟩ := exists_ofNat_eq_cons radix
  exact ⟨d, _, hd, Or.inl (by rw [radixLiteral, hcons, List.cons_append])⟩

/-- Letters and digits can be a literal if no mark stands twice among them. -/
theorem admissible_of_isAlphanum {t : Text} (ht : ∀ c ∈ t, c.isAlphanum) (hr : t.count 'r' ≤ 1)
    (he : t.count 'e' ≤ 1) : Admissible t [] := by
  have hpoint : '.' ∉ t := notMem_of_isAlphanum ht (by decide)
  have hminus : ∀ part : Text, part <:+: t → part.count '-' ≤ 1 := by
    intro part hpart
    have hmem : '-' ∉ part :=
      notMem_of_isAlphanum (fun c hc => ht c (hpart.subset hc)) (by decide)
    rw [List.count_eq_zero_of_not_mem hmem]
    exact Nat.zero_le 1
  refine ⟨fun c hc => Or.inl (ht c hc), hr, he, ?_, ?_, ?_, ?_⟩
  · rw [List.count_eq_zero_of_not_mem hpoint]
    exact Nat.zero_le 1
  · exact hminus _ (List.takeWhile_prefix _).isInfix
  · exact hminus _ (List.dropWhile_suffix _).isInfix
  · rintro front back rfl
    exact absurd (by simp) hpoint

/-- Digits without marks are a literal as a whole. -/
theorem admissible_radixLiteral {radix : ℕ} {digits : Text}
    (hdigits : ∀ c ∈ digits, IsDigitOf radix c) (he : 'e' ∉ digits) (hr : 'r' ∉ digits) :
    Admissible (radixLiteral radix digits) [] := by
  have hbefore : ∀ mark ∈ ['r', 'e', '.', '-'], mark ∉ Text.ofNat radix :=
    fun _ hmark => notMem_of_isUpperDigit (fun _ => isUpperDigit_ofNat) hmark
  have hcount : ∀ mark ∈ ['r', 'e', '.', '-'], mark ∉ digits →
      (radixLiteral radix digits).count mark = ['r'].count mark := by
    intro mark hmark hmem
    rw [radixLiteral, List.count_append, List.count_eq_zero_of_not_mem (hbefore mark hmark),
      Nat.zero_add, List.count_cons, List.count_eq_zero_of_not_mem hmem, List.count_cons,
      List.count_nil]
  refine admissible_of_isAlphanum (isAlphanum_radixLiteral hdigits) ?_ ?_
  · rw [hcount 'r' (by decide) hr]
    decide
  · rw [hcount 'e' (by decide) he]
    decide

end Numeral

/-! ### The capture -/

namespace Reading

open Numeral

/-- A letter or digit ends no literal. -/
theorem Marks.step_of_isAlphanum (m : Marks) {c : Char} (hc : c.isAlphanum) (next : Option Char) :
    m.step c next =
      if c = 'r' then
        if m.radix then .clash .multipleRadix else .take { m with radix := true }
      else if c = 'e' then
        if m.exponent then .clash .multipleExponent
        else .take { m with exponent := true, minus := false }
      else .take m := by
  have hpoint : ¬ (c = '.' ∧ next.any Char.isAlphanum) := by
    rintro ⟨rfl, -⟩
    cases hc
  have hminus : c ≠ '-' := by
    rintro rfl
    cases hc
  unfold Marks.step
  simp only [if_neg hpoint, if_neg hminus, if_pos hc]

theorem Marks.step_ne_stop (m : Marks) {c : Char} (hc : c.isAlphanum) (next : Option Char) :
    m.step c next ≠ .stop := by
  rw [m.step_of_isAlphanum hc]
  split_ifs
  all_goals nofun

theorem Marks.step_congr (m : Marks) {c d : Char} (h : SameDigit c d) (hc : c.isAlphanum)
    (next next' : Option Char) : m.step c next = m.step d next' := by
  rw [m.step_of_isAlphanum hc, m.step_of_isAlphanum (h.isAlphanum_eq ▸ hc)]
  simp only [h.eq_radix_iff, h.eq_exponent_iff]

/-- **The same digits are captured alike,** up to the same fault. -/
theorem capture_congr {t u : Text} (h : List.Forall₂ SameDigit t u) (ht : ∀ c ∈ t, c.isAlphanum)
    (m : Marks) : (capture m t).2 = (capture m u).2 ∧
      List.Forall₂ SameDigit (capture m t).1 (capture m u).1 := by
  induction h generalizing m with
  | nil => exact ⟨rfl, .nil⟩
  | @cons c d t u hc _ ih =>
    rw [List.forall_mem_cons] at ht
    unfold capture
    rw [m.step_congr hc ht.1 t.head? u.head?]
    cases m.step d u.head? with
    | take m' => exact ⟨(ih ht.2 m').1, .cons hc (ih ht.2 m').2⟩
    | stop => exact ⟨rfl, .nil⟩
    | clash fault => exact ⟨rfl, .nil⟩

/-- Letters and digits without a fault are captured to their end. -/
theorem capture_of_isAlphanum {t captured : Text} (ht : ∀ c ∈ t, c.isAlphanum) {m : Marks}
    (h : capture m t = (captured, none)) : captured = t := by
  induction t generalizing m captured with
  | nil => exact (congrArg Prod.fst h).symm
  | cons c t ih =>
    rw [List.forall_mem_cons] at ht
    unfold capture at h
    rcases hstep : m.step c t.head? with m' | _ | fault <;> rw [hstep] at h
    · rcases hc : capture m' t with ⟨rest, fault⟩
      simp only [hc, Prod.mk.injEq] at h
      obtain ⟨rfl, rfl⟩ := h
      exact congrArg (c :: ·) (ih ht.2 hc)
    · exact absurd hstep (m.step_ne_stop ht.1 _)
    · cases h

/-- A fault of the capture quotes nothing. -/
theorem about_of_capture {t captured literal : Text} {fault : ScanFault} {offset : ℕ}
    (h : capture {} t = (captured, some fault)) :
    ScanError.about ⟨fault, offset⟩ literal = ⟨fault, offset⟩ := by
  obtain ⟨rest, -, -, hh⟩ := halted_capture describes_nil (admissible_nil t)
  rw [h] at hh
  cases hh with
  | clashed hm => cases hm <;> rfl

variable {radix : ℕ} {digits other : Text} (hradix : 2 ≤ radix ∧ radix ≤ 36)
  (hdigits : ∀ c ∈ digits, IsDigitOf radix c)
include hdigits

/-- Without a fault of the capture a literal is read to its end. -/
theorem lexeme_number_radixLiteral {k : Token}
    (h : (number (radixLiteral radix digits)).outcome = .ok k) :
    (number (radixLiteral radix digits)).lexeme = radixLiteral radix digits := by
  rcases hc : capture {} (radixLiteral radix digits) with ⟨captured, _ | fault⟩
  · rw [number_of_capture hc]
    exact capture_of_isAlphanum (isAlphanum_radixLiteral hdigits) hc
  · unfold number at h
    rw [hc] at h
    cases h

include hradix

/-- **The same digits are read alike.** -/
theorem outcome_number_congr (h : List.Forall₂ SameDigit digits other) :
    (number (radixLiteral radix other)).outcome =
      (number (radixLiteral radix digits)).outcome.mapError
        (·.about (radixLiteral radix other)) := by
  have halnum := isAlphanum_radixLiteral hdigits
  have halnum' := isAlphanum_radixLiteral (forall_isDigitOf_congr h hdigits)
  obtain ⟨hfault, hcaptured⟩ := capture_congr (forall₂_radixLiteral h radix) halnum {}
  rcases hc : capture {} (radixLiteral radix digits) with ⟨captured, fault⟩
  rcases hc' : capture {} (radixLiteral radix other) with ⟨captured', fault'⟩
  simp only [hc, hc'] at hfault hcaptured
  subst hfault
  rcases fault with _ | fault
  · rw [number_of_capture hc, number_of_capture hc', capture_of_isAlphanum halnum hc,
      capture_of_isAlphanum halnum' hc', evaluate_congr hradix hdigits h]
    rcases evaluate (radixLiteral radix digits) with e | v <;> rfl
  · unfold number
    rw [hc, hc']
    dsimp only
    rw [byteLength_congr hcaptured]
    exact congrArg Except.error (about_of_capture hc).symm

end Reading

open Numeral

theorem scan_radixLiteral {radix : ℕ} {digits : Text} (hdigits : ∀ c ∈ digits, IsDigitOf radix c)
    (keepBlanks : Bool) : scan (radixLiteral radix digits) 0 keepBlanks =
      (Reading.number (radixLiteral radix digits)).outcome.map
        fun k => ⟨[k], (radixLiteral radix digits).byteLength⟩ :=
  scan_of_number (startsInteger_radixLiteral radix digits)
    (fun _ => Reading.lexeme_number_radixLiteral hdigits) keepBlanks

/-- **Radix digits in either case.** Literals with a radix and digits of it that differ only in the
case of letters other than `E` and `R` are scanned to the same tokens up to the same end, or with the
same fault at the same offset; a fault that quotes the literal quotes it as it is written. Digits
without a lower case `e` or `r` are scanned to one number, their value. -/
theorem scan_radixLiteral_congr {radix : ℕ} {digits other : Text} (hradix : 2 ≤ radix ∧ radix ≤ 36)
    (hdigits : ∀ c ∈ digits, IsDigitOf radix c) (hsame : List.Forall₂ SameDigit digits other)
    (keepBlanks : Bool) :
    scan (radixLiteral radix other) 0 keepBlanks =
        (scan (radixLiteral radix digits) 0 keepBlanks).mapError
          (·.about (radixLiteral radix other)) ∧
      ('e' ∉ digits → 'r' ∉ digits → scan (radixLiteral radix digits) 0 keepBlanks =
        .ok ⟨[⟨.number, (wholeValue radix (digits.filterMap CharClass.digitValue?)).toText⟩],
          (radixLiteral radix digits).byteLength⟩) := by
  have hother := forall_isDigitOf_congr hsame hdigits
  have hlength := byteLength_congr (forall₂_radixLiteral hsame radix)
  constructor
  · rw [scan_radixLiteral hdigits, scan_radixLiteral hother,
      Reading.outcome_number_congr hradix hdigits hsame, hlength]
    rcases (Reading.number (radixLiteral radix digits)).outcome with e | k <;> rfl
  · intro he hr
    have hcut := Text.cut_of_notMem he
    have hvalue := evaluate_radixLiteral hradix hdigits
    rw [hcut] at hvalue
    exact scan_literal (startsInteger_radixLiteral radix digits)
      (admissible_radixLiteral hdigits he hr) hvalue keepBlanks

theorem scan_radixLiteral_congr_exponent :
    scan "16raFe1".toList 0 false = .ok ⟨[⟨.number, "2800".toList⟩], 7⟩ ∧
      scan "16rAfe1".toList 0 false = .ok ⟨[⟨.number, "2800".toList⟩], 7⟩ := by
  have hradix : 2 ≤ 16 ∧ 16 ≤ 36 := by decide
  have hdigits : ∀ c ∈ "aFe1".toList, IsDigitOf 16 c := Text.forall_of_all (by decide)
  have hsame : List.Forall₂ SameDigit "aFe1".toList "Afe1".toList := by decide
  have hnumber : (Reading.number (radixLiteral 16 "aFe1".toList)).outcome =
      .ok ⟨.number, "2800".toList⟩ := by decide +kernel
  have hscan := scan_radixLiteral hdigits false
  rw [hnumber] at hscan
  have hcase := (scan_radixLiteral_congr hradix hdigits hsame false).1
  exact ⟨hscan, hcase.trans (congrArg _ hscan)⟩

/-- The case of `E` and of `R` counts: in lower case they are marks and no digits. -/
theorem scan_radixLiteral_marks :
    (∀ c ∈ "Ee1".toList, IsDigitOf 16 c) ∧ (∀ c ∈ "Rr".toList, IsDigitOf 36 c) ∧
      scan (radixLiteral 16 "E1".toList) 0 false = .ok ⟨[⟨.number, "225".toList⟩], 5⟩ ∧
      scan (radixLiteral 16 "e1".toList) 0 false = .ok ⟨[⟨.number, "0".toList⟩], 5⟩ ∧
      scan (radixLiteral 36 "R".toList) 0 false = .ok ⟨[⟨.number, "27".toList⟩], 4⟩ ∧
      scan (radixLiteral 36 "r".toList) 0 false = .error ⟨.multipleRadix, 3⟩ := by
  have hexponent : ∀ c ∈ "Ee1".toList, IsDigitOf 16 c := Text.forall_of_all (by decide)
  have hradix : ∀ c ∈ "Rr".toList, IsDigitOf 36 c := Text.forall_of_all (by decide)
  have hupperE : ∀ c ∈ "E1".toList, IsDigitOf 16 c := Text.forall_of_all (by decide)
  have hlowerE : ∀ c ∈ "e1".toList, IsDigitOf 16 c := Text.forall_of_all (by decide)
  have hupperR : ∀ c ∈ "R".toList, IsDigitOf 36 c := Text.forall_of_all (by decide)
  have hlowerR : ∀ c ∈ "r".toList, IsDigitOf 36 c := Text.forall_of_all (by decide)
  rw [scan_radixLiteral hupperE, scan_radixLiteral hlowerE, scan_radixLiteral hupperR,
    scan_radixLiteral hlowerR]
  refine ⟨hexponent, hradix, ?_⟩
  decide +kernel

end Smalltalk
