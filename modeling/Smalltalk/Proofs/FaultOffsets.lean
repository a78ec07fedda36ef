import Smalltalk.Proofs.LiteralFaults
import Smalltalk.Proofs.Step

/-! # Errors tell the truth about their offsets

The offset of an error comes from the start of a token, from the place where the capture of a number
stopped, or from sums inside the evaluation of a literal. All of them point at the text that the
fault describes.

* `ScanFault.Describes`: what a fault says about the text from its offset on.
* `Reading.truthful_ofText`: the error of every rule points at such a text.
* `scan_error_truthful`: hence every error of a scan that starts on a character boundary. -/

namespace Smalltalk

/-- **What a fault says about the text from its offset on.** -/
def ScanFault.Describes (fault : ScanFault) (rest : Text) : Prop :=
  match fault with
  | .trailingDollar => rest = ['$']
  | .trailingLess => rest = ['<']
  | .trailingGreater => rest = ['>']
  | .trailingColon => rest = [':']
  | .trailingBackslash => ∃ r, rest = '\\' :: r ∧ r.head? ≠ some '\\'
  | .invalidHash => ∃ r, rest = '#' :: r ∧ ∀ c ∈ r.head?, ¬ c.isAlphanum ∧ c ≠ '('
  | .invalidTilde => ∃ r, rest = '~' :: r ∧ ∀ c ∈ r.head?, c ≠ '~' ∧ c ≠ '='
  | .multipleRadix => rest.head? = some 'r'
  | .multipleExponent => rest.head? = some 'e'
  | .invalidRadix radix => radix ++ ['r'] <+: rest
  | .invalidDigit digit radix =>
    rest.head? = some digit ∧ ∀ v ∈ CharClass.digitValue? digit, radix ≤ v
  | .malformedNumber _ => ∃ r, rest = 'e' :: r ∧ ¬ Numeral.StartsInteger r
  | .invalidStart => False
  | .unknownCharacter character => rest.head? = some character

theorem ScanFault.Describes.ne_nil {fault : ScanFault} {rest : Text} (h : fault.Describes rest) :
    rest ≠ [] := by
  rintro rfl
  cases fault <;> simp [Describes] at h

namespace Reading

/-! ### One rule -/

/-- An error of the reading points at the text its fault describes. -/
def Truthful (r : Reading) (t : Text) : Prop :=
  ∀ e, r.outcome = .error e →
    ∃ front back, t = front ++ back ∧ front.byteLength = e.offset ∧ e.fault.Describes back

theorem truthful_token (kind : TokenKind) (value lexeme t : Text) :
    (token kind value lexeme).Truthful t := by
  rintro e ⟨⟩

theorem truthful_special (spelling t : Text) : (special spelling).Truthful t :=
  truthful_token _ _ _ _

theorem truthful_refuse {fault : ScanFault} {t : Text} (h : fault.Describes t) :
    (refuse fault).Truthful t := by
  rintro _ ⟨rfl⟩
  exact ⟨[], t, rfl, rfl, h⟩

theorem truthful_name (t u : Text) : (name t).Truthful u := by
  unfold name
  dsimp only
  split <;> exact truthful_token _ _ _ _

theorem truthful_blockArgument (t : Text) : (blockArgument t).Truthful (':' :: t) := by
  unfold blockArgument
  split
  · next h =>
    rw [List.head?_eq_none_iff] at h
    exact truthful_refuse (by rw [h]; rfl)
  · split
    · exact truthful_token _ _ _ _
    · exact truthful_refuse rfl

theorem truthful_char (t : Text) : (char t).Truthful ('$' :: t) := by
  unfold char
  split
  · next h =>
    rw [List.head?_eq_none_iff] at h
    exact truthful_refuse (by rw [h]; rfl)
  · exact truthful_token _ _ _ _

theorem truthful_hash (t : Text) : (hash t).Truthful ('#' :: t) := by
  unfold hash
  split
  · next h =>
    refine truthful_refuse ⟨t, rfl, ?_⟩
    rw [h]
    simp
  · next c h =>
    split
    · exact truthful_token _ _ _ _
    · next hc =>
      split
      · exact truthful_special _ _
      · next hp =>
        refine truthful_refuse ⟨t, rfl, ?_⟩
        rw [h]
        rintro _ ⟨rfl⟩
        exact ⟨hc, hp⟩

/-- A literal starts with a number, so only its exponent can be malformed. -/
theorem truthful_number {t : Text} (ht : Numeral.StartsInteger t) : (number t).Truthful t := by
  intro e h
  rcases number_cases t with ⟨literal, fault, hc, hn⟩ | ⟨literal, v, -, -, hn⟩ |
    ⟨literal, e', hc, he, hn⟩
  · rw [hn] at h
    obtain rfl := Except.error.inj h
    obtain ⟨c, r, rfl, hf⟩ := capture_fault hc
    refine ⟨literal, c :: r, rfl, rfl, ?_⟩
    rcases hf with ⟨rfl, rfl⟩ | ⟨rfl, rfl⟩ <;> rfl
  · simp [hn, token] at h
  · rw [hn] at h
    obtain rfl := Except.error.inj h
    have hstart := startsInteger_capture (m := {}) rfl ht
    obtain ⟨r, hr⟩ : literal <+: t := by simpa [hc] using capture_isPrefix {} t
    rw [hc] at hstart
    cases Numeral.literalFault_of_evaluate he with
    | @radix before body hl =>
      refine ⟨[], t, rfl, rfl, body ++ r, ?_⟩
      rw [← hr, hl]
      simp
    | @digit front back d radix hl hd =>
      refine ⟨front, d :: (back ++ r), ?_, rfl, rfl, hd⟩
      rw [← hr, hl]
      simp
    | @exponent front back hl hb =>
      rw [hl] at hc
      obtain ⟨r', ht', hs⟩ := not_startsInteger_of_capture hc hb
      exact ⟨front, 'e' :: r', ht', rfl, r', rfl, hs⟩
    | mantissa hm => exact absurd hm hstart.cut.decimalPrefix?_ne_none

/-- **The error of every rule points at the text its fault describes.** -/
theorem truthful_ofText (c : Char) (t : Text) : (ofText c t).Truthful (c :: t) := by
  induction c, t using ofText_cases with
  | blanks c t _ h => rw [h]; exact truthful_token _ _ _ _
  | name c t _ h => rw [h]; exact truthful_name _ _
  | number c t hc h => rw [h]; exact truthful_number (Numeral.startsInteger_cons hc)
  | special c t _ h => rw [h]; exact truthful_special _ _
  | oneOrTwo c t _ h =>
    rw [h]
    rcases oneOrTwo_eq c [c] t with h' | ⟨d, -, h'⟩ <;> rw [h'] <;> exact truthful_special _ _
  | two c seconds fault t hc h =>
    rw [h]
    rcases two_eq c seconds fault t with ⟨d, -, h'⟩ | ⟨h', hd⟩
    · rw [h']; exact truthful_special _ _
    · rw [h']
      refine truthful_refuse ?_
      rcases hc with ⟨rfl, rfl, rfl⟩ | ⟨rfl, rfl, rfl⟩
      · exact ⟨t, rfl, hd '\\' (by simp)⟩
      · refine ⟨t, rfl, fun x hx => ⟨?_, ?_⟩⟩
        · rintro rfl; exact hd '~' (by simp) hx
        · rintro rfl; exact hd '=' (by simp) hx
  | notLast c seconds fault t hc h =>
    rw [h]
    rcases notLast_eq c seconds fault t with h' | ⟨d, -, h'⟩ | ⟨h', rfl⟩
    · rw [h']; exact truthful_special _ _
    · rw [h']; exact truthful_special _ _
    · rw [h']
      refine truthful_refuse ?_
      rcases hc with ⟨rfl, -, rfl⟩ | ⟨rfl, -, rfl⟩ <;> rfl
  | blockArgument t h => rw [h]; exact truthful_blockArgument t
  | char t h => rw [h]; exact truthful_char t
  | hash t h => rw [h]; exact truthful_hash t
  | comment t h => rw [h]; exact truthful_token _ _ _ _
  | string t h => rw [h]; exact truthful_token _ _ _ _
  | unknown c t h => rw [h]; exact truthful_refuse rfl

end Reading

/-! ### A whole scan -/

namespace Lexer

theorem placedTokens_error {l : Lexer} {e : ScanError} (h : l.placedTokens = .error e) :
    l.position ≤ e.offset ∧
      ∃ back, l.cursor.source.dropBytes? e.offset = some back ∧ e.fault.Describes back := by
  obtain ⟨before, c, t, e', hs, hle, ho, rfl⟩ := exists_reading_of_error h
  obtain ⟨front, back, hct, hoff, hd⟩ := Reading.truthful_ofText c t e' ho
  refine ⟨?_, back, Text.dropBytes?_eq_some_iff.mpr ⟨before ++ front, ?_, ?_⟩, hd⟩
  · rw [ScanError.offset_shift]
    omega
  · rw [hs, hct, List.append_assoc]
  · rw [Text.byteLength_append, hoff, ScanError.offset_shift]

end Lexer

/-- **Every error of a scan tells the truth about its offset:** it is a character boundary of the
text at or behind the start, and the text from there on is what the fault describes. -/
theorem scan_error_truthful {text : Text} {start : Nat} {keepBlanks : Bool} {e : ScanError}
    (hstart : text.IsBoundary start) (h : scan text start keepBlanks = .error e) :
    start ≤ e.offset ∧ e.offset < text.byteLength ∧ text.IsBoundary e.offset ∧
      e.fault.Describes (text.fromByte e.offset) := by
  obtain ⟨hle, back, hback, hd⟩ := Lexer.placedTokens_error (scan_error hstart.canStart h)
  have hback' : text.dropBytes? e.offset = some back := hback
  obtain ⟨front, rfl, hf⟩ := Text.dropBytes?_eq_some_iff.mp hback'
  obtain ⟨c, cs, rfl⟩ := List.exists_cons_of_ne_nil hd.ne_nil
  have hc := Char.utf8Size_pos c
  refine ⟨hle, ?_, Option.isSome_iff_exists.mpr ⟨_, hback'⟩, ?_⟩
  · rw [Text.byteLength_append, Text.byteLength_cons, hf]
    omega
  · rw [Text.fromByte, hback']
    exact hd

theorem scan_error_truthful_radix_digit :
    2 ≤ 9 ∧ 9 < Text.byteLength ('é' :: " 16r-1.G5".toList) ∧
      Text.IsBoundary ('é' :: " 16r-1.G5".toList) 9 ∧
      (ScanFault.invalidDigit 'G' 16).Describes (Text.fromByte ('é' :: " 16r-1.G5".toList) 9) := by
  have h : scan ('é' :: " 16r-1.G5".toList) 2 false = .error ⟨.invalidDigit 'G' 16, 9⟩ := by
    unfold scan
    rw [if_pos (by decide), Lexer.placedTokens_of_error (e := ⟨.invalidDigit 'G' 16, 9⟩) rfl]
    rfl
  exact scan_error_truthful (by decide) h

end Smalltalk
