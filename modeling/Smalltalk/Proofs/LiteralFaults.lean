import Smalltalk.Proofs.RefusedLiterals
import Smalltalk.Proofs.Rules

/-! # What can be wrong with a numeric literal

A literal is captured first and evaluated afterwards, so its faults come from two places: a second
`r` or `e` stops the capture, and the evaluation refuses a radix, a digit or an exponent. The
offsets of the second kind are sums of the lengths of parts of the literal; `Numeral.LiteralFault`
lists these faults with the parts that stand before the offset.

* `Numeral.literalFault_of_evaluate`: the evaluation has no other faults.
* `Reading.startsInteger_capture`: a sign and a digit are never cut off from a literal, neither at
  its start nor behind `e`; so a captured literal always has a mantissa. -/

namespace Smalltalk

namespace Numeral

/-! ### Signs and digits at the front -/

/-- A digit, or a minus sign and a digit, stands at the front. -/
def StartsInteger (t : Text) : Prop := ∃ d r, d.isDigit ∧ (t = d :: r ∨ t = '-' :: d :: r)

theorem startsInteger_cons {c : Char} {t : Text}
    (h : c.isDigit ∨ c = '-' ∧ t.head?.any Char.isDigit) : StartsInteger (c :: t) := by
  rcases h with h | ⟨rfl, h⟩
  · exact ⟨c, t, h, Or.inl rfl⟩
  · rcases t with _ | ⟨d, r⟩
    · simp at h
    · exact ⟨d, r, by simpa using h, Or.inr rfl⟩

theorem ne_of_isDigit {d c : Char} (hd : d.isDigit) (hc : c.isDigit = false) : d ≠ c := by
  rintro rfl
  simp [hd] at hc

theorem StartsInteger.cut {t : Text} (h : StartsInteger t) : StartsInteger (t.cut 'e').1 := by
  obtain ⟨d, r, hd, rfl | rfl⟩ := h
  · rw [Text.cut_cons_of_ne (ne_of_isDigit hd (by decide))]
    exact ⟨d, _, hd, Or.inl rfl⟩
  · rw [Text.cut_cons_of_ne (by decide), Text.cut_cons_of_ne (ne_of_isDigit hd (by decide))]
    exact ⟨d, _, hd, Or.inr rfl⟩

theorem StartsInteger.integerPrefix?_ne_none {t : Text} (h : StartsInteger t) :
    integerPrefix? t ≠ none := by
  rw [ne_eq, integerPrefix?_eq_none_iff, not_not]
  obtain ⟨d, r, hd, rfl | rfl⟩ := h
  · exact ⟨[], d, r, Or.inl rfl, hd, rfl⟩
  · exact ⟨['-'], d, r, Or.inr (Or.inr rfl), hd, rfl⟩

theorem StartsInteger.decimalPrefix?_ne_none {t : Text} (h : StartsInteger t) :
    decimalPrefix? t ≠ none := by
  rw [ne_eq, decimalPrefix?_eq_none_iff, not_not]
  obtain ⟨d, r, hd, rfl | rfl⟩ := h
  · exact ⟨[], d :: r, Or.inl rfl, rfl, d, r, hd, Or.inl rfl⟩
  · exact ⟨['-'], d :: r, Or.inr (Or.inr rfl), rfl, d, r, hd, Or.inl rfl⟩

/-! ### Faults of the evaluation -/

/-- The faults of a literal, with the parts of it before and behind the offset. -/
inductive LiteralFault (literal : Text) : ScanError → Prop
  | radix {before body : Text} (h : literal = before ++ 'r' :: body) :
    LiteralFault literal ⟨.invalidRadix before, 0⟩
  | digit {front back : Text} {d : Char} {radix : Nat} (h : literal = front ++ d :: back)
    (hd : ∀ v ∈ CharClass.digitValue? d, radix ≤ v) :
    LiteralFault literal ⟨.invalidDigit d radix, front.byteLength⟩
  | exponent {front back : Text} (h : literal = front ++ 'e' :: back)
    (hb : integerPrefix? back = none) :
    LiteralFault literal ⟨.malformedNumber literal, front.byteLength⟩
  | mantissa (h : decimalPrefix? (literal.cut 'e').1 = none) :
    LiteralFault literal ⟨.malformedNumber literal, 0⟩

/-- **The evaluation has no other faults.** -/
theorem literalFault_of_evaluate {literal : Text} {e : ScanError}
    (h : evaluate literal = .error e) : LiteralFault literal e := by
  cases refused_of_evaluate h with
  | radix hparts _ => exact .radix hparts.eq
  | @digit before sign front back d exponent n hparts _ _ hd _ =>
    have hsplit : literal =
        (before ++ 'r' :: (sign ++ front)) ++ d :: (back ++ marked exponent) := by
      rw [hparts.eq]
      simp
    exact .digit hsplit fun v hv => Nat.le_of_not_lt fun hlt => hd ⟨v, hv, hlt⟩
  | @power before sign digits exponent n hparts _ _ hno =>
    have hsplit : literal = (before ++ 'r' :: (sign ++ digits)) ++ 'e' :: exponent := by
      rw [hparts.eq]
      simp [marked]
    exact .exponent hsplit (integerPrefix?_eq_none_iff.mpr hno)
  | mantissa hparts hno =>
    refine .mantissa (decimalPrefix?_eq_none_iff.mpr ?_)
    rwa [hparts.eq, cut_marked hparts.mantissa]
  | exponent hparts _ hno => exact .exponent hparts.eq (integerPrefix?_eq_none_iff.mpr hno)

end Numeral

/-! ### The capture -/

namespace Reading

theorem step_clash {m : Marks} {c : Char} {next : Option Char} {fault : ScanFault}
    (h : m.step c next = .clash fault) :
    fault = .multipleRadix ∧ c = 'r' ∨ fault = .multipleExponent ∧ c = 'e' := by
  unfold Marks.step at h
  by_cases hr : c = 'r'
  · rw [if_pos hr] at h
    split at h
    · exact Or.inl ⟨(Step.clash.inj h).symm, hr⟩
    · simp at h
  by_cases he : c = 'e'
  · rw [if_neg hr, if_pos he] at h
    split at h
    · exact Or.inr ⟨(Step.clash.inj h).symm, he⟩
    · simp at h
  · -- any other character is taken or stops the capture
    rw [if_neg hr, if_neg he] at h
    repeat' split at h
    all_goals simp at h

theorem capture_fault {m : Marks} {t literal : Text} {fault : ScanFault}
    (h : capture m t = (literal, some fault)) : ∃ c r, t = literal ++ c :: r ∧
      (fault = .multipleRadix ∧ c = 'r' ∨ fault = .multipleExponent ∧ c = 'e') := by
  induction t generalizing m literal with
  | nil => simp [capture] at h
  | cons c cs ih =>
    unfold capture at h
    rcases hs : m.step c cs.head? with m' | _ | fault' <;> simp only [hs] at h
    · rcases hc : capture m' cs with ⟨captured, fault'⟩
      rw [hc] at h
      obtain ⟨rfl, rfl⟩ := Prod.mk.inj h
      obtain ⟨d, r, hcs, hf⟩ := ih hc
      exact ⟨d, r, by rw [hcs]; rfl, hf⟩
    · simp at h
    · obtain ⟨rfl, hfault⟩ := Prod.mk.inj h
      rw [← Option.some.inj hfault]
      exact ⟨c, cs, rfl, step_clash hs⟩

theorem step_of_isDigit {d : Char} (hd : d.isDigit) (m : Marks) (next : Option Char) :
    m.step d next = .take m := by
  have h1 := Numeral.ne_of_isDigit (c := 'r') hd (by decide)
  have h2 := Numeral.ne_of_isDigit (c := 'e') hd (by decide)
  have h3 := Numeral.ne_of_isDigit (c := '.') hd (by decide)
  have h4 := Numeral.ne_of_isDigit (c := '-') hd (by decide)
  simp [Marks.step, h1, h2, h3, h4, Char.isAlphanum, hd]

theorem capture_of_isDigit {d : Char} (hd : d.isDigit) (m : Marks) (t : Text) :
    (capture m (d :: t)).1 = d :: (capture m t).1 := by
  rw [capture, step_of_isDigit hd]

/-- **A sign and a digit are captured** where no minus sign has been seen. -/
theorem startsInteger_capture {m : Marks} {t : Text} (hm : m.minus = false)
    (h : Numeral.StartsInteger t) : Numeral.StartsInteger (capture m t).1 := by
  obtain ⟨d, r, hd, rfl | rfl⟩ := h
  · rw [capture_of_isDigit hd]
    exact ⟨d, _, hd, Or.inl rfl⟩
  · have hs : m.step '-' (d :: r).head? = .take { m with minus := true } := by
      simp [Marks.step, hm]
    rw [capture, hs]
    dsimp only
    rw [capture_of_isDigit hd]
    exact ⟨d, _, hd, Or.inr rfl⟩

theorem capture_cons {m : Marks} {t literal : Text} {c : Char} {fault : Option ScanFault}
    (h : capture m t = (c :: literal, fault)) : ∃ cs m', t = c :: cs ∧
      m.step c cs.head? = .take m' ∧ capture m' cs = (literal, fault) := by
  rcases t with _ | ⟨d, cs⟩
  · simp [capture] at h
  · unfold capture at h
    rcases hs : m.step d cs.head? with m' | _ | fault' <;> simp only [hs] at h
    · obtain ⟨hcons, rfl⟩ := Prod.mk.inj h
      obtain ⟨rfl, rfl⟩ := List.cons.inj hcons
      exact ⟨cs, m', rfl, hs, rfl⟩
    · simp at h
    · simp at h

theorem step_exponent {m m' : Marks} {next : Option Char} (h : m.step 'e' next = .take m') :
    m'.minus = false := by
  unfold Marks.step at h
  rw [if_neg (by decide), if_pos rfl] at h
  split at h
  · simp at h
  · rw [← Step.take.inj h]

/-- Behind `e` the capture starts afresh, as far as minus signs go. -/
theorem capture_exponent {m : Marks} {t front back : Text} {fault : Option ScanFault}
    (h : capture m t = (front ++ 'e' :: back, fault)) :
    ∃ m' r, m'.minus = false ∧ t = front ++ 'e' :: r ∧ capture m' r = (back, fault) := by
  induction front generalizing m t with
  | nil =>
    obtain ⟨r, m', rfl, hs, hr⟩ := capture_cons h
    exact ⟨m', r, step_exponent hs, rfl, hr⟩
  | cons c front ih =>
    obtain ⟨cs, m', rfl, -, hcs⟩ := capture_cons h
    obtain ⟨m'', r, hm, rfl, hr⟩ := ih hcs
    exact ⟨m'', r, hm, rfl, hr⟩

theorem not_startsInteger_of_capture {m : Marks} {t front back : Text} {fault : Option ScanFault}
    (h : capture m t = (front ++ 'e' :: back, fault)) (hb : Numeral.integerPrefix? back = none) :
    ∃ r, t = front ++ 'e' :: r ∧ ¬ Numeral.StartsInteger r := by
  obtain ⟨m', r, hm, ht, hr⟩ := capture_exponent h
  refine ⟨r, ht, fun hs => ?_⟩
  have hback := startsInteger_capture hm hs
  rw [hr] at hback
  exact hback.integerPrefix?_ne_none hb

end Reading

end Smalltalk
