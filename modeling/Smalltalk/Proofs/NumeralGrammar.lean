import Mathlib.Data.List.Infix
import Mathlib.Data.List.TakeWhile
import Smalltalk.Numeral

/-! # Numerals at the front of a text

The parts of a literal are read as far as they are numbers, and what follows is ignored. What is
read is settled by a grammar alone: signs, runs of digits, a point and the mark of an exponent.

* `Numeral.LeadingInteger`: the integer that leads a text, a sign and all digits behind it.
  `Numeral.integerPrefix?_eq_some_iff`: this is the integer that is read.
* `Numeral.DecimalNumeral`: signs, digits, a point and a power of ten in their order.
  `Numeral.decimalPrefix?_eq_some_iff`: the longest such numeral is read.
* `Numeral.integerPrefix?_eq_none_iff`, `Numeral.decimalPrefix?_eq_none_iff`: what a text starts
  with if there is a number to read. -/

namespace Smalltalk.Numeral

/-! ### Signs and runs of digits -/

/-- A sign, or none. -/
def IsSign (t : Text) : Prop := t = [] ∨ t = ['+'] ∨ t = ['-']

/-- All characters are decimal digits. -/
def AllDigits (t : Text) : Prop := ∀ c ∈ t, c.isDigit

/-- The text does not go on with a decimal digit. -/
def NoDigitNext (t : Text) : Prop := t.head?.any Char.isDigit = false

instance (t : Text) : Decidable (IsSign t) :=
  inferInstanceAs (Decidable (t = [] ∨ t = ['+'] ∨ t = ['-']))

instance (t : Text) : Decidable (AllDigits t) :=
  List.decidableBAll (fun c : Char => c.isDigit = true) t

instance (t : Text) : Decidable (NoDigitNext t) :=
  inferInstanceAs (Decidable (t.head?.any Char.isDigit = false))

variable {sign digits rest t : Text}

theorem takeWhile_digits (hd : AllDigits digits) (hr : NoDigitNext rest) :
    (digits ++ rest).takeWhile Char.isDigit = digits := by
  rw [List.takeWhile_append_of_pos hd]
  rcases rest with _ | ⟨c, rest⟩
  · simp
  · have hc : c.isDigit = false := hr
    simp [hc]

theorem dropWhile_digits (hd : AllDigits digits) (hr : NoDigitNext rest) :
    (digits ++ rest).dropWhile Char.isDigit = rest := by
  rw [List.dropWhile_append_of_pos hd]
  rcases rest with _ | ⟨c, rest⟩
  · rfl
  · have hc : c.isDigit = false := hr
    simp [hc]

theorem allDigits_takeWhile (t : Text) : AllDigits (t.takeWhile Char.isDigit) :=
  fun _ hc => List.mem_takeWhile_imp hc

theorem noDigitNext_dropWhile (t : Text) : NoDigitNext (t.dropWhile Char.isDigit) := by
  induction t with
  | nil => rfl
  | cons c t ih =>
    by_cases hc : c.isDigit
    · rwa [List.dropWhile_cons_of_pos hc]
    · rw [List.dropWhile_cons_of_neg hc]
      simpa [NoDigitNext] using hc

/-- What the reader of signs leaves stands behind a sign. -/
theorem exists_sign_of_cutSign {negative : Bool} (h : cutSign t = (negative, rest)) :
    ∃ sign, IsSign sign ∧ t = sign ++ rest ∧ negative = decide (sign = ['-']) := by
  unfold cutSign at h
  split at h
  · obtain ⟨rfl, rfl⟩ := Prod.mk.inj h
    exact ⟨['-'], Or.inr (Or.inr rfl), rfl, rfl⟩
  · obtain ⟨rfl, rfl⟩ := Prod.mk.inj h
    exact ⟨['+'], Or.inr (Or.inl rfl), rfl, rfl⟩
  · obtain ⟨rfl, rfl⟩ := Prod.mk.inj h
    exact ⟨[], Or.inl rfl, rfl, rfl⟩

theorem cutSign_append (hs : IsSign sign) (ht : t.head? ≠ some '-' ∧ t.head? ≠ some '+') :
    cutSign (sign ++ t) = (decide (sign = ['-']), t) := by
  rcases hs with rfl | rfl | rfl
  · rw [List.nil_append]
    unfold cutSign
    split
    · exact absurd rfl ht.1
    · exact absurd rfl ht.2
    · rfl
  · rfl
  · rfl

theorem head?_of_allDigits (hd : AllDigits digits) (hne : digits ≠ []) (rest : Text) :
    (digits ++ rest).head? ≠ some '-' ∧ (digits ++ rest).head? ≠ some '+' := by
  obtain ⟨c, digits, rfl⟩ := List.exists_cons_of_ne_nil hne
  have hc : c.isDigit := hd c List.mem_cons_self
  constructor
  all_goals
    rintro ⟨⟩
    exact absurd hc (by decide)

/-! ### Integers -/

theorem allDigits_ofNat (n : Nat) : AllDigits (Text.ofNat n) :=
  fun _ hc => Nat.isDigit_of_mem_toDigits (by decide) (by decide) hc

theorem ofNat_ne_nil (n : Nat) : Text.ofNat n ≠ [] :=
  List.length_pos_iff.mp Nat.length_toDigits_pos

theorem exists_ofNat_eq_cons (n : Nat) : ∃ d r, d.isDigit ∧ Text.ofNat n = d :: r := by
  obtain ⟨d, r, h⟩ := List.exists_cons_of_ne_nil (ofNat_ne_nil n)
  exact ⟨d, r, allDigits_ofNat n d (h ▸ List.mem_cons_self), h⟩

theorem ofDigitChars_ofNat (n : Nat) : Nat.ofDigitChars 10 (Text.ofNat n) 0 = n :=
  Nat.ofDigitChars_ten_toDigits

/-- **The integer that leads a text:** a sign or none, and all the digits that follow, at least one.
-/
inductive LeadingInteger : Text → Int → Prop
  | intro {sign digits rest : Text} (hs : IsSign sign) (hd : AllDigits digits) (hne : digits ≠ [])
    (hr : NoDigitNext rest) : LeadingInteger (sign ++ (digits ++ rest))
      (Double.signed (sign = ['-']) (Nat.ofDigitChars 10 digits 0))

theorem leadingInteger_ofNat (n : Nat) : LeadingInteger (Text.ofNat n) n := by
  have hsign : IsSign [] := Or.inl rfl
  have hnext : NoDigitNext [] := rfl
  have hlead := LeadingInteger.intro hsign (allDigits_ofNat n) (ofNat_ne_nil n) hnext
  rwa [List.nil_append, List.append_nil, ofDigitChars_ofNat] at hlead

/-- A sign or none, and then a digit. -/
def StartsSigned (t : Text) : Prop := ∃ sign d rest, IsSign sign ∧ d.isDigit ∧ t = sign ++ d :: rest

/-- A sign or none, and then a digit or a point and a digit. -/
def StartsDecimal (t : Text) : Prop := ∃ sign rest, IsSign sign ∧ t = sign ++ rest ∧
  ∃ d r, d.isDigit ∧ (rest = d :: r ∨ rest = '.' :: d :: r)

theorem ofDigits_eq (digits : Text) : ofDigits digits = Nat.ofDigitChars 10 digits 0 := rfl

theorem integerPrefix?_append (hs : IsSign sign) (hd : AllDigits digits) (hne : digits ≠ [])
    (hr : NoDigitNext rest) : integerPrefix? (sign ++ (digits ++ rest)) =
      some (Double.signed (sign = ['-']) (Nat.ofDigitChars 10 digits 0)) := by
  unfold integerPrefix?
  rw [cutSign_append hs (head?_of_allDigits hd hne rest)]
  dsimp only
  rw [takeWhile_digits hd hr, if_neg hne, ofDigits_eq]

/-- **The integer that is read is the one that leads the text.** -/
theorem integerPrefix?_eq_some_iff {n : Int} : integerPrefix? t = some n ↔ LeadingInteger t n := by
  constructor
  · intro h
    unfold integerPrefix? at h
    rcases hcut : cutSign t with ⟨negative, u⟩
    obtain ⟨sign, hs, rfl, rfl⟩ := exists_sign_of_cutSign hcut
    rw [hcut] at h
    dsimp only at h
    split at h
    · cases h
    · next hne =>
      have hread := LeadingInteger.intro hs (allDigits_takeWhile u) hne (noDigitNext_dropWhile u)
      rwa [List.takeWhile_append_dropWhile, ← ofDigits_eq, Option.some.inj h] at hread
  · rintro ⟨hs, hd, hne, hr⟩
    exact integerPrefix?_append hs hd hne hr

/-- **No integer is read exactly if the text does not start with one.** -/
theorem integerPrefix?_eq_none_iff : integerPrefix? t = none ↔ ¬ StartsSigned t := by
  rw [← not_iff_not, ← ne_eq, Option.ne_none_iff_exists', not_not]
  simp only [integerPrefix?_eq_some_iff]
  constructor
  · rintro ⟨_, ⟨hs, hd, hne, -⟩⟩
    obtain ⟨d, digits, rfl⟩ := List.exists_cons_of_ne_nil hne
    exact ⟨_, d, _, hs, hd d List.mem_cons_self, rfl⟩
  · rintro ⟨sign, d, rest, hs, hd, rfl⟩
    rw [← List.takeWhile_append_dropWhile (p := Char.isDigit) (l := d :: rest)]
    exact ⟨_, .intro hs (allDigits_takeWhile _) (by simp [hd]) (noDigitNext_dropWhile _)⟩

/-! ### Decimal numerals -/

/-- The power of ten of a numeral: its mark, a sign or none, and digits. -/
structure PowerOfTen where
  mark : Char
  sign : Text
  digits : Text
  mark_eq : mark = 'e' ∨ mark = 'E'
  isSign : IsSign sign
  allDigits : AllDigits digits
  ne_nil : digits ≠ []

/-- **A decimal numeral:** a sign or none, digits with at most one point among them, and a power of
ten or none. -/
structure DecimalNumeral where
  sign : Text
  whole : Text
  fraction : Option Text
  power : Option PowerOfTen
  isSign : IsSign sign
  allDigits_whole : AllDigits whole
  allDigits_fraction : ∀ digits ∈ fraction, AllDigits digits
  ne_nil : whole ++ fraction.getD [] ≠ []

/-- Digits without a point are read up to their end. -/
theorem decimalPrefix?_whole (hs : IsSign sign) (hd : AllDigits digits) (hne : digits ≠ [])
    (hr : NoDigitNext rest) (hp : rest.head? ≠ some '.') :
    decimalPrefix? (sign ++ (digits ++ rest)) = some (Double.ofDecimal (sign = ['-'])
      (Nat.ofDigitChars 10 digits 0) (exponentPrefix rest)) := by
  unfold decimalPrefix?
  rw [cutSign_append hs (head?_of_allDigits hd hne rest)]
  dsimp only
  rw [takeWhile_digits hd hr, dropWhile_digits hd hr]
  rcases rest with _ | ⟨c, rest⟩
  · simp [hne, ofDigits_eq]
  · have hc : c ≠ '.' := by simpa using hp
    simp [hne, ofDigits_eq, hc]

/-- Digits with a point among them are read up to their end. -/
theorem decimalPrefix?_pointed {whole fraction : Text} (hs : IsSign sign) (hw : AllDigits whole)
    (hf : AllDigits fraction) (hne : whole ++ fraction ≠ []) (hr : NoDigitNext rest) :
    decimalPrefix? (sign ++ (whole ++ '.' :: (fraction ++ rest))) = some (Double.ofDecimal
      (sign = ['-']) (Nat.ofDigitChars 10 (whole ++ fraction) 0)
      (exponentPrefix rest - fraction.length)) := by
  have hsign : (whole ++ '.' :: (fraction ++ rest)).head? ≠ some '-' ∧
      (whole ++ '.' :: (fraction ++ rest)).head? ≠ some '+' := by
    by_cases hnil : whole = []
    · simp [hnil]
    · exact head?_of_allDigits hw hnil _
  have hpoint : NoDigitNext ('.' :: (fraction ++ rest)) := rfl
  have hnone : ¬ (whole = [] ∧ fraction = []) := by simpa using hne
  unfold decimalPrefix?
  rw [cutSign_append hs hsign]
  dsimp only
  rw [takeWhile_digits hw hpoint, dropWhile_digits hw hpoint]
  simp only [takeWhile_digits hf hr, dropWhile_digits hf hr, hnone, if_false, ofDigits_eq]

/-- The text of a power of ten. -/
def PowerOfTen.text (p : PowerOfTen) : Text := p.mark :: (p.sign ++ p.digits)

/-- The exponent of a power of ten. -/
def PowerOfTen.exponent (p : PowerOfTen) : Int :=
  Double.signed (p.sign = ['-']) (Nat.ofDigitChars 10 p.digits 0)

namespace DecimalNumeral

/-- The point and the digits behind it, if there is a point. -/
def pointText (fraction : Option Text) : Text := fraction.elim [] ('.' :: ·)

/-- The power of ten, if there is one. -/
def powerText (power : Option PowerOfTen) : Text := power.elim [] PowerOfTen.text

/-- The text of a numeral. -/
def text (d : DecimalNumeral) : Text :=
  d.sign ++ (d.whole ++ (pointText d.fraction ++ powerText d.power))

/-- The double nearest to what a numeral stands for. -/
def value (d : DecimalNumeral) : Double :=
  Double.ofDecimal (d.sign = ['-']) (Nat.ofDigitChars 10 (d.whole ++ d.fraction.getD []) 0)
    (d.power.elim 0 PowerOfTen.exponent - (d.fraction.getD []).length)

/-- **The numeral that leads a text:** the longest one at its front. -/
structure Leads (d : DecimalNumeral) (t : Text) : Prop where
  isPrefix : d.text <+: t
  longest : ∀ other : DecimalNumeral, other.text <+: t → other.text <+: d.text

/-- No character of `rest` can belong to a numeral in front of it. -/
structure EndsBefore (d : DecimalNumeral) (rest : Text) : Prop where
  digit : NoDigitNext rest
  point : d.fraction = none → d.power = none → rest.head? ≠ some '.'
  power : d.power = none → ∀ mark t, rest = mark :: t → mark = 'e' ∨ mark = 'E' → ¬ StartsSigned t

/-! ### A numeral is read up to its end -/

section EndsBefore

variable {d : DecimalNumeral}

theorem noDigitNext_power_some (p : PowerOfTen) (rest : Text) :
    NoDigitNext (p.text ++ rest) := by
  change p.mark.isDigit = false
  rcases p.mark_eq with h | h <;> rw [h] <;> decide

theorem noDigitNext_power {power : Option PowerOfTen} (hr : NoDigitNext rest) :
    NoDigitNext (powerText power ++ rest) := by
  rcases power with _ | p
  · exact hr
  · exact noDigitNext_power_some p rest

theorem noDigitNext_point {fraction : Option Text} (hr : NoDigitNext rest) :
    NoDigitNext (pointText fraction ++ rest) := by
  rcases fraction with _ | digits
  · exact hr
  · rfl

theorem exponentPrefix_of_not_starts
    (h : ∀ mark u, t = mark :: u → mark = 'e' ∨ mark = 'E' → ¬ StartsSigned u) :
    exponentPrefix t = 0 := by
  unfold exponentPrefix
  split
  · rw [integerPrefix?_eq_none_iff.mpr (h _ _ rfl (Or.inl rfl)), Option.getD_none]
  · rw [integerPrefix?_eq_none_iff.mpr (h _ _ rfl (Or.inr rfl)), Option.getD_none]
  · rfl

theorem exponentPrefix_power (p : PowerOfTen) (hr : NoDigitNext rest) :
    exponentPrefix (p.text ++ rest) = p.exponent := by
  have hread := integerPrefix?_append p.isSign p.allDigits p.ne_nil hr
  have htext : p.text ++ rest = p.mark :: (p.sign ++ (p.digits ++ rest)) := by
    simp [PowerOfTen.text]
  rw [htext]
  rcases p.mark_eq with h | h <;> rw [h, exponentPrefix, hread, Option.getD_some] <;> rfl

theorem EndsBefore.exponentPrefix_eq (h : d.EndsBefore rest) :
    exponentPrefix (powerText d.power ++ rest) = d.power.elim 0 PowerOfTen.exponent := by
  rcases hp : d.power with _ | p
  · exact exponentPrefix_of_not_starts (h.power hp)
  · exact exponentPrefix_power p h.digit

theorem EndsBefore.head?_ne_point (h : d.EndsBefore rest) (hf : d.fraction = none) :
    (powerText d.power ++ rest).head? ≠ some '.' := by
  rcases hp : d.power with _ | p
  · exact h.point hf hp
  · change some p.mark ≠ some '.'
    rcases p.mark_eq with hm | hm <;> rw [hm] <;> decide

/-- Behind the sign of a numeral stands a digit or a point. -/
theorem head?_ne_sign (d : DecimalNumeral) (rest : Text) :
    (d.whole ++ (pointText d.fraction ++ rest)).head? ≠ some '-' ∧
      (d.whole ++ (pointText d.fraction ++ rest)).head? ≠ some '+' := by
  by_cases hw : d.whole = []
  · rcases hf : d.fraction with _ | digits
    · exact absurd (by simp [hw, hf]) d.ne_nil
    · simp [hw, pointText]
  · exact head?_of_allDigits d.allDigits_whole hw _

/-- **A numeral is read up to its end.** -/
theorem EndsBefore.decimalPrefix?_eq (h : d.EndsBefore rest) :
    decimalPrefix? (d.text ++ rest) = some d.value := by
  have hnext : NoDigitNext (powerText d.power ++ rest) := noDigitNext_power h.digit
  have hpower := h.exponentPrefix_eq
  have hne := d.ne_nil
  rcases hf : d.fraction with _ | digits
  · have hsplit : d.text ++ rest = d.sign ++ (d.whole ++ (powerText d.power ++ rest)) := by
      simp [text, hf, pointText]
    rw [hf, Option.getD_none, List.append_nil] at hne
    rw [hsplit, decimalPrefix?_whole d.isSign d.allDigits_whole hne hnext (h.head?_ne_point hf),
      hpower]
    simp [value, hf]
  · have hsplit : d.text ++ rest =
        d.sign ++ (d.whole ++ '.' :: (digits ++ (powerText d.power ++ rest))) := by
      simp [text, hf, pointText]
    rw [hf, Option.getD_some] at hne
    rw [hsplit, decimalPrefix?_pointed d.isSign d.allDigits_whole (d.allDigits_fraction digits hf)
      hne hnext, hpower]
    simp [value, hf]

end EndsBefore

/-! ### Every number is a numeral and what it ends before -/

theorem exists_power (hr : NoDigitNext t) : ∃ (power : Option PowerOfTen) (rest : Text),
    t = powerText power ++ rest ∧ NoDigitNext rest ∧ (power = none → ∀ mark u, rest = mark :: u →
      mark = 'e' ∨ mark = 'E' → ¬ StartsSigned u) := by
  by_cases h : ∃ mark u, t = mark :: u ∧ (mark = 'e' ∨ mark = 'E') ∧ StartsSigned u
  · obtain ⟨mark, u, rfl, hmark, sign, d, rest, hs, hd, rfl⟩ := h
    have hne : (d :: rest).takeWhile Char.isDigit ≠ [] := by simp [hd]
    refine ⟨some ⟨mark, sign, _, hmark, hs, allDigits_takeWhile (d :: rest), hne⟩,
      (d :: rest).dropWhile Char.isDigit, ?_, noDigitNext_dropWhile _, nofun⟩
    change _ = mark :: (sign ++ (d :: rest).takeWhile Char.isDigit) ++ _
    rw [List.cons_append, List.append_assoc, List.takeWhile_append_dropWhile]
  · refine ⟨none, t, rfl, hr, fun _ mark u ht hmark hu => ?_⟩
    exact h ⟨mark, u, ht, hmark, hu⟩

/-- A text that starts with a number starts with a numeral that goes no further. -/
theorem exists_endsBefore (h : StartsDecimal t) :
    ∃ (d : DecimalNumeral) (rest : Text), t = d.text ++ rest ∧ d.EndsBefore rest := by
  obtain ⟨sign, u, hs, rfl, hu⟩ := h
  by_cases hp : (u.dropWhile Char.isDigit).head? = some '.'
  · -- a point stands behind the digits, and digits may stand behind the point
    obtain ⟨v, hv⟩ := List.head?_eq_some_iff.mp hp
    obtain ⟨power, rest, hpower, hr, hend⟩ := exists_power (noDigitNext_dropWhile v)
    have hne : u.takeWhile Char.isDigit ++ v.takeWhile Char.isDigit ≠ [] := by
      obtain ⟨d, r, hd, rfl | rfl⟩ := hu
      · simp [hd]
      · have hrest : v = d :: r := (List.cons.inj hv.symm).2
        simp [hrest, hd]
    refine ⟨⟨sign, u.takeWhile Char.isDigit, some (v.takeWhile Char.isDigit), power, hs,
      allDigits_takeWhile u, ?_, hne⟩, rest, ?_, hr, nofun, hend⟩
    · rintro _ ⟨⟩
      exact allDigits_takeWhile v
    · have hu : u = u.takeWhile Char.isDigit ++ '.' :: (v.takeWhile Char.isDigit ++
          (powerText power ++ rest)) := by
        rw [← hpower, List.takeWhile_append_dropWhile, ← hv, List.takeWhile_append_dropWhile]
      conv_lhs => rw [hu]
      simp [text, pointText]
  · obtain ⟨power, rest, hpower, hr, hend⟩ := exists_power (noDigitNext_dropWhile u)
    have hne : u.takeWhile Char.isDigit ≠ [] := by
      obtain ⟨d, r, hd, rfl | rfl⟩ := hu
      · simp [hd]
      · exact absurd rfl hp
    refine ⟨⟨sign, u.takeWhile Char.isDigit, none, power, hs, allDigits_takeWhile u, nofun,
      by simpa using hne⟩, rest, ?_, hr, fun _ hnone => ?_, hend⟩
    · have hu : u = u.takeWhile Char.isDigit ++ (powerText power ++ rest) := by
        rw [← hpower, List.takeWhile_append_dropWhile]
      conv_lhs => rw [hu]
      simp [text, pointText]
    · obtain rfl : power = none := hnone
      rwa [hpower] at hp

theorem startsDecimal_append (d : DecimalNumeral) (rest : Text) :
    StartsDecimal (d.text ++ rest) := by
  refine ⟨d.sign, d.whole ++ (pointText d.fraction ++ powerText d.power) ++ rest, d.isSign,
    by simp [text], ?_⟩
  rcases hw : d.whole with _ | ⟨c, whole⟩
  · rcases hf : d.fraction with _ | digits
    · exact absurd (by simp [hw, hf]) d.ne_nil
    · obtain ⟨c, digits, rfl⟩ : ∃ c cs, digits = c :: cs :=
        List.exists_cons_of_ne_nil (by simpa [hw, hf] using d.ne_nil)
      exact ⟨c, _, d.allDigits_fraction _ hf c List.mem_cons_self, Or.inr rfl⟩
  · have hc : c.isDigit := d.allDigits_whole c (by simp [hw])
    exact ⟨c, _, hc, Or.inl rfl⟩

/-! ### No longer numeral leads the text -/

section Longest

variable {a a' b b' : Text}

/-- Of two runs of digits at the front of a text, one that goes no further is the longer. -/
theorem isPrefix_of_digits (ha : AllDigits a) (ha' : AllDigits a') (hb : NoDigitNext b)
    (h : a' ++ b' = a ++ b) : a' <+: a := by
  rw [← takeWhile_digits ha hb, ← h, List.takeWhile_append_of_pos ha']
  exact List.prefix_append ..

/-- Two runs of digits at the front of a text that go no further are the same. -/
theorem eq_of_digits (ha : AllDigits a) (ha' : AllDigits a') (hb : NoDigitNext b)
    (hb' : NoDigitNext b') (h : a' ++ b' = a ++ b) : a' = a ∧ b' = b := by
  have heq : a' = a := by rw [← takeWhile_digits ha hb, ← h, takeWhile_digits ha' hb']
  rw [heq] at h
  exact ⟨heq, List.append_cancel_left h⟩

theorem sign_eq {sign sign' : Text} (hs : IsSign sign) (hs' : IsSign sign')
    (ha : a.head? ≠ some '-' ∧ a.head? ≠ some '+') (ha' : a'.head? ≠ some '-' ∧ a'.head? ≠ some '+')
    (h : sign' ++ a' = sign ++ a) : sign' = sign ∧ a' = a := by
  have hcut : (cutSign (sign' ++ a')).2 = (cutSign (sign ++ a)).2 := by rw [h]
  rw [cutSign_append hs ha, cutSign_append hs' ha'] at hcut
  obtain rfl : a' = a := hcut
  exact ⟨List.append_cancel_right h, rfl⟩

theorem powerText_isPrefix {power power' : Option PowerOfTen} {r r' : Text} (hr : NoDigitNext r)
    (hend : power = none → ∀ mark t, r = mark :: t → mark = 'e' ∨ mark = 'E' → ¬ StartsSigned t)
    (h : powerText power' ++ r' = powerText power ++ r) : powerText power' <+: powerText power := by
  rcases power' with _ | p'
  · exact List.nil_prefix
  have hread : p'.mark :: (p'.sign ++ (p'.digits ++ r')) = powerText power ++ r := by
    rw [← h]
    simp [powerText, PowerOfTen.text]
  rcases power with _ | p
  · obtain ⟨d, digits, hd⟩ := List.exists_cons_of_ne_nil p'.ne_nil
    refine absurd ?_ (hend rfl _ _ hread.symm p'.mark_eq)
    refine ⟨p'.sign, d, digits ++ r', p'.isSign, ?_, by rw [hd]; rfl⟩
    exact p'.allDigits d (by simp [hd])
  · have hread : p'.mark :: (p'.sign ++ (p'.digits ++ r')) =
        p.mark :: (p.sign ++ (p.digits ++ r)) := by
      rw [hread]
      simp [powerText, PowerOfTen.text]
    obtain ⟨hmark, hread⟩ := List.cons.inj hread
    obtain ⟨hsign, hdigits⟩ := sign_eq p.isSign p'.isSign
      (head?_of_allDigits p.allDigits p.ne_nil r)
      (head?_of_allDigits p'.allDigits p'.ne_nil r') hread
    obtain ⟨back, hback⟩ := isPrefix_of_digits p.allDigits p'.allDigits hr hdigits
    refine ⟨back, ?_⟩
    simp [powerText, PowerOfTen.text, hmark, hsign, ← hback]

/-- The same behind a run of digits, that of the other numeral being perhaps a shorter one. -/
theorem digits_powerText_isPrefix {power power' : Option PowerOfTen} {digits' r r' : Text}
    (hd : AllDigits digits) (hd' : AllDigits digits') (hr : NoDigitNext r)
    (hend : power = none → ∀ mark t, r = mark :: t → mark = 'e' ∨ mark = 'E' → ¬ StartsSigned t)
    (h : digits' ++ (powerText power' ++ r') = digits ++ (powerText power ++ r)) :
    digits' ++ powerText power' <+: digits ++ powerText power := by
  have hpower : NoDigitNext (powerText power ++ r) := noDigitNext_power hr
  rcases power' with _ | p'
  · have hle := isPrefix_of_digits hd hd' hpower h
    rw [powerText, Option.elim_none, List.append_nil]
    exact hle.trans (List.prefix_append ..)
  · obtain ⟨rfl, htail⟩ := eq_of_digits hd hd' hpower (noDigitNext_power_some p' r') h
    rw [List.prefix_append_right_inj]
    exact powerText_isPrefix hr hend htail

/-- What stands behind the whole digits of a numeral that goes no further is the longest too. -/
theorem EndsBefore.tail_isPrefix {d other : DecimalNumeral} {rest r' : Text}
    (h : d.EndsBefore rest) (hgoes : ¬ (other.fraction = none ∧ other.power = none))
    (htail : pointText other.fraction ++ (powerText other.power ++ r') =
      pointText d.fraction ++ (powerText d.power ++ rest)) :
    pointText other.fraction ++ powerText other.power <+:
      pointText d.fraction ++ powerText d.power := by
  rcases hf' : other.fraction with _ | digits' <;> rcases hf : d.fraction with _ | digits <;>
    rw [hf', hf] at htail
  · exact powerText_isPrefix h.digit h.power htail
  · obtain ⟨p, hp⟩ := Option.ne_none_iff_exists'.mp fun hnone => hgoes ⟨hf', hnone⟩
    rw [hp] at htail
    have hmark : p.mark = '.' := (List.cons.inj htail).1
    rcases p.mark_eq with he | he <;> rw [he] at hmark <;> exact absurd hmark (by decide)
  · exact absurd
      (by rw [← List.nil_append (powerText _ ++ _)]; exact congrArg List.head? htail.symm)
      (h.head?_ne_point hf)
  · exact (List.prefix_cons_inj '.').mpr (digits_powerText_isPrefix
      (d.allDigits_fraction digits hf) (other.allDigits_fraction digits' hf') h.digit h.power
      (List.cons.inj htail).2)

/-- **A numeral that goes no further is the longest.** -/
theorem EndsBefore.longest {d other : DecimalNumeral} {rest : Text} (h : d.EndsBefore rest)
    (hother : other.text <+: d.text ++ rest) : other.text <+: d.text := by
  obtain ⟨r', hr'⟩ := hother
  have hread : other.sign ++ (other.whole ++
      (pointText other.fraction ++ (powerText other.power ++ r'))) =
      d.sign ++ (d.whole ++ (pointText d.fraction ++ (powerText d.power ++ rest))) := by
    simpa [text] using hr'
  have hpower : NoDigitNext (powerText d.power ++ rest) := noDigitNext_power h.digit
  obtain ⟨hsign, hwhole⟩ := sign_eq d.isSign other.isSign (d.head?_ne_sign _)
    (other.head?_ne_sign _) hread
  rw [text, text, hsign, List.prefix_append_right_inj]
  -- a numeral that ends inside a run of digits is the shorter one; else both go on behind it
  by_cases hstop : other.fraction = none ∧ other.power = none
  · have hw := isPrefix_of_digits d.allDigits_whole other.allDigits_whole
      (noDigitNext_point hpower) hwhole
    simp only [hstop, pointText, powerText, Option.elim_none, List.append_nil]
    exact hw.trans (List.prefix_append ..)
  · have hnext : NoDigitNext (pointText other.fraction ++ (powerText other.power ++ r')) := by
      rcases hf : other.fraction with _ | digits
      · obtain ⟨p, hp⟩ := Option.ne_none_iff_exists'.mp fun hnone => hstop ⟨hf, hnone⟩
        rw [hp]
        exact noDigitNext_power_some p r'
      · rfl
    obtain ⟨hw, htail⟩ := eq_of_digits d.allDigits_whole other.allDigits_whole
      (noDigitNext_point hpower) hnext hwhole
    rw [hw, List.prefix_append_right_inj]
    exact h.tail_isPrefix hstop htail

end Longest

theorem EndsBefore.leads {d : DecimalNumeral} (h : d.EndsBefore rest) : d.Leads (d.text ++ rest) :=
  ⟨List.prefix_append .., fun _ hother => h.longest hother⟩

/-- At the end of a text a numeral goes no further. -/
theorem endsBefore_nil (d : DecimalNumeral) : d.EndsBefore [] :=
  ⟨rfl, nofun, nofun⟩

theorem decimalPrefix?_text (d : DecimalNumeral) : decimalPrefix? d.text = some d.value := by
  simpa using d.endsBefore_nil.decimalPrefix?_eq

end DecimalNumeral

theorem startsDecimal_of_decimalPrefix? {x : Double} (h : decimalPrefix? t = some x) :
    StartsDecimal t := by
  rcases hcut : cutSign t with ⟨negative, u⟩
  obtain ⟨sign, hs, rfl, rfl⟩ := exists_sign_of_cutSign hcut
  refine ⟨sign, u, hs, rfl, ?_⟩
  unfold decimalPrefix? at h
  rw [hcut] at h
  dsimp only at h
  rcases u with _ | ⟨c, u⟩
  · cases h
  by_cases hc : c.isDigit
  · exact ⟨c, u, hc, Or.inl rfl⟩
  rw [List.takeWhile_cons_of_neg hc, List.dropWhile_cons_of_neg hc] at h
  by_cases hp : c = '.'
  · subst hp
    rcases u with _ | ⟨d, u⟩
    · cases h
    by_cases hd : d.isDigit
    · exact ⟨d, u, hd, Or.inr rfl⟩
    · simp [hd] at h
  · simp [hp] at h

/-- **What is read is the value of the numeral that leads the text.** -/
theorem decimalPrefix?_eq_some_iff {x : Double} :
    decimalPrefix? t = some x ↔ ∃ d : DecimalNumeral, d.Leads t ∧ d.value = x := by
  constructor
  · intro h
    obtain ⟨d, rest, rfl, hend⟩ :=
      DecimalNumeral.exists_endsBefore (startsDecimal_of_decimalPrefix? h)
    rw [hend.decimalPrefix?_eq] at h
    exact ⟨d, hend.leads, Option.some.inj h⟩
  · rintro ⟨d, hd, rfl⟩
    obtain ⟨r, rfl⟩ := hd.isPrefix
    obtain ⟨other, rest, ht, hend⟩ := DecimalNumeral.exists_endsBefore (d.startsDecimal_append r)
    have hle : other.text <+: d.text := hd.longest other ⟨rest, ht.symm⟩
    have hge : d.text <+: other.text := hend.longest ⟨r, ht⟩
    have heq : d.text = other.text := hge.eq_of_length_le hle.length_le
    have hvalue : some d.value = some other.value := by
      rw [← d.decimalPrefix?_text, heq, other.decimalPrefix?_text]
    rw [ht, hend.decimalPrefix?_eq, hvalue]

/-- **Nothing is read exactly if the text does not start with a number.** -/
theorem decimalPrefix?_eq_none_iff :
    decimalPrefix? t = none ↔ ¬ StartsDecimal t := by
  constructor
  · intro h hstart
    obtain ⟨d, rest, rfl, hend⟩ := DecimalNumeral.exists_endsBefore hstart
    rw [hend.decimalPrefix?_eq] at h
    cases h
  · intro h
    rcases hread : decimalPrefix? t with _ | x
    · rfl
    · exact absurd (startsDecimal_of_decimalPrefix? hread) h

end Smalltalk.Numeral
