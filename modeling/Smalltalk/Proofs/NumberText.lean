import Smalltalk.Double.Notation

/-! # The characters of a number

The canonical text of a double has digits, signs, a point, the mark of an exponent and the letters
of the names of what is no finite number, and it is never empty.

* `Double.isWritten_toText`: no other character occurs.
* `Double.toText_ne_nil`: some character does. -/

namespace Smalltalk

namespace Double

/-- The characters of which numbers are written. -/
def IsWritten (c : Char) : Prop := c.isDigit ∨ c ∈ "+-.eINafinty".toList

theorem isWritten_toDigits {n : Nat} {c : Char} (h : c ∈ Nat.toDigits 10 n) : IsWritten c :=
  Or.inl (Nat.isDigit_of_mem_toDigits (by decide) (by decide) h)

theorem isWritten_significant {n : Nat} {c : Char} (h : c ∈ significant n) : IsWritten c := by
  have hdrop := (List.dropWhile_sublist _).mem (List.mem_reverse.mp h)
  exact isWritten_toDigits (List.mem_reverse.mp hdrop)

theorem isWritten_pointed {whole fraction : Text} (hw : ∀ c ∈ whole, IsWritten c)
    (hf : ∀ c ∈ fraction, IsWritten c) : ∀ c ∈ pointed whole fraction, IsWritten c := by
  intro c hc
  unfold pointed at hc
  split at hc
  · exact hw c hc
  · rcases List.mem_append.mp hc with hc | hc
    · exact hw c hc
    · rcases List.mem_cons.mp hc with rfl | hc
      · exact Or.inr (by decide)
      · exact hf c hc

theorem isWritten_zeros {n : Nat} {c : Char} (h : c ∈ List.replicate n '0') : IsWritten c := by
  rw [List.eq_of_mem_replicate h]
  exact Or.inl (by decide)

theorem isWritten_positional {digits : Text} (h : ∀ c ∈ digits, IsWritten c) (leading : Int) :
    ∀ c ∈ positional digits leading, IsWritten c := by
  unfold positional
  split
  · refine isWritten_pointed (fun c hc => isWritten_zeros (n := 1) hc) fun c hc => ?_
    rcases List.mem_append.mp hc with hc | hc
    · exact isWritten_zeros hc
    · exact h c hc
  · refine isWritten_pointed (fun c hc => ?_) fun c hc => h c (List.mem_of_mem_drop hc)
    rcases List.mem_append.mp hc with hc | hc
    · exact h c (List.mem_of_mem_take hc)
    · exact isWritten_zeros hc

theorem isWritten_scientific {digits : Text} (h : ∀ c ∈ digits, IsWritten c) (leading : Int) :
    ∀ c ∈ scientific digits leading, IsWritten c := by
  intro c hc
  rcases List.mem_append.mp hc with hc | hc
  · exact isWritten_pointed (fun c hc => h c (List.mem_of_mem_take hc))
      (fun c hc => h c (List.mem_of_mem_drop hc)) c hc
  · simp only [List.mem_cons] at hc
    rcases hc with rfl | rfl | hc
    · exact Or.inr (by decide)
    · split <;> exact Or.inr (by decide)
    · exact isWritten_toDigits hc

theorem isWritten_signText {negative : Bool} {c : Char} (h : c ∈ signText negative) :
    IsWritten c := by
  cases negative
  · simp [signText] at h
  · rw [List.mem_singleton.mp h]
    exact Or.inr (by decide)

/-- **A number is written with digits and few other characters.** -/
theorem isWritten_toText (v : Double) : ∀ c ∈ v.toText, IsWritten c := by
  intro c hc
  have hnames : ∀ c ∈ "NaN".toList ++ "Infinity".toList, c ∈ "+-.eINafinty".toList :=
    Text.forall_of_all (by decide)
  cases v with
  | nan => exact Or.inr (hnames c (List.mem_append_left _ hc))
  | infinite s =>
    rcases List.mem_append.mp hc with hc | hc
    · exact isWritten_signText hc
    · exact Or.inr (hnames c (List.mem_append_right _ hc))
  | finite s m q =>
    rw [toText] at hc
    split at hc
    · exact isWritten_zeros (n := 1) hc
    · rcases List.mem_append.mp hc with hc | hc
      · exact isWritten_signText hc
      · unfold magnitudeText at hc
        dsimp only at hc
        split at hc
        · exact isWritten_positional (fun c => isWritten_significant) _ c hc
        · exact isWritten_scientific (fun c => isWritten_significant) _ c hc

theorem pointed_ne_nil {whole : Text} (h : whole ≠ []) (fraction : Text) :
    pointed whole fraction ≠ [] := by
  unfold pointed
  split
  · exact h
  · simp

theorem positional_ne_nil (digits : Text) (leading : Int) : positional digits leading ≠ [] := by
  unfold positional
  split
  · exact pointed_ne_nil (by simp) _
  · refine pointed_ne_nil (fun h => ?_) _
    have hlen := congrArg List.length h
    rw [List.length_append, List.length_take, List.length_replicate, List.length_nil] at hlen
    omega

theorem toText_ne_nil (v : Double) : v.toText ≠ [] := by
  cases v with
  | nan => decide
  | infinite s => simp [toText]
  | finite s m q =>
    rw [toText]
    split
    · simp
    · refine List.append_ne_nil_of_right_ne_nil _ ?_
      unfold magnitudeText
      dsimp only
      split
      · exact positional_ne_nil _ _
      · exact List.append_ne_nil_of_right_ne_nil _ (by simp)

end Double

end Smalltalk
