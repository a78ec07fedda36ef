import Smalltalk.Proofs.Blanks
import Smalltalk.Proofs.Iteration
import Smalltalk.Proofs.LiteralFaults
import Smalltalk.Proofs.Resumption

/-! # Where the lexer stands after an error

Most rules look ahead before they consume anything. An error of such a rule leaves the lexer at the
character that it is about, behind the blanks that were skipped, so the next call meets the same
error and changes nothing. A numeric literal is consumed before it is judged: a second `r` or `e`
leaves the lexer in front of that mark, and what the evaluation refuses leaves it behind the whole
literal.

* `Reading.refuse_or_number_of_error`: the errors of all rules are of these two kinds.
* `Lexer.after_error`: a lexer that has consumed nothing repeats its error.
* `nextToken_error_place`: the places of a lexer after an error. -/

namespace Smalltalk

/-- A mark that stands twice in a numeric literal. -/
def ScanFault.IsSecondMark : ScanFault → Prop
  | .multipleRadix | .multipleExponent => True
  | _ => False

/-! ### Errors of a reading -/

namespace Numeral

/-- What the evaluation refuses lies within the literal. -/
theorem LiteralFault.offset_lt {literal : Text} {e : ScanError} (h : LiteralFault literal e)
    (hne : literal ≠ []) : e.offset < literal.byteLength := by
  have hpos : 0 < literal.byteLength :=
    Nat.lt_of_lt_of_le (List.length_pos_iff.mpr hne) literal.length_le_byteLength
  cases h with
  | radix _ => exact hpos
  | digit hl _ =>
    rw [hl, Text.byteLength_append, Text.byteLength_cons]
    exact Nat.lt_add_of_pos_right (Nat.add_pos_left (Char.utf8Size_pos _) _)
  | exponent hl _ =>
    rw [hl, Text.byteLength_append, Text.byteLength_cons]
    exact Nat.lt_add_of_pos_right (Nat.add_pos_left (Char.utf8Size_pos _) _)
  | mantissa _ => exact hpos

theorem LiteralFault.isNumeric {literal : Text} {e : ScanError} (h : LiteralFault literal e) :
    e.fault.IsNumeric ∧ ¬ e.fault.IsSecondMark := by
  cases h <;> exact ⟨trivial, id⟩

end Numeral

namespace Reading

open Numeral

variable {c : Char} {t : Text} {e : ScanError}

theorem Plain.eq_refuse {r : Reading} (h : r.Plain) (he : r.outcome = .error e) :
    ¬ e.fault.IsNumeric ∧ r = Reading.refuse e.fault ∧ e.offset = 0 := by
  cases h with
  | token hkind value lexeme => cases he
  | refuse hfault =>
    obtain rfl := Except.error.inj he
    exact ⟨hfault, rfl, rfl⟩

/-- **An error is a refusal of the first character or an error of a number,** and its fault tells
which. -/
theorem refuse_or_number_of_error (h : (ofText c t).outcome = .error e) :
    (¬ e.fault.IsNumeric ∧ ofText c t = refuse e.fault ∧ e.offset = 0) ∨
      StartsInteger (c :: t) ∧ ofText c t = number (c :: t) :=
  (plain_or_number c t).imp (·.eq_refuse h) fun hn => ⟨startsInteger_cons hn.1, hn.2⟩

/-- **The errors of a number:** a second mark behind what was captured, or a fault within it. -/
theorem number_error (ht : StartsInteger t) (h : (number t).outcome = .error e) :
    e.fault.IsNumeric ∧ (number t).lexeme ≠ [] ∧ (number t).lexeme = (capture {} t).1 ∧
      (e.fault.IsSecondMark ∧ e.offset = (number t).lexeme.byteLength ∨
        ¬ e.fault.IsSecondMark ∧ e.offset < (number t).lexeme.byteLength) := by
  have hne : (capture {} t).1 ≠ [] := by
    obtain ⟨d, r, -, hstart | hstart⟩ := startsInteger_capture (m := {}) rfl ht <;>
      exact hstart ▸ List.cons_ne_nil _ _
  rcases number_cases t with ⟨literal, fault, hc, hn⟩ | ⟨literal, v, -, -, hn⟩ |
    ⟨literal, e', hc, he, hn⟩
  · have hsecond : fault.IsNumeric ∧ fault.IsSecondMark := by
      obtain ⟨_, _, -, ⟨rfl, -⟩ | ⟨rfl, -⟩⟩ := capture_fault hc <;> exact ⟨trivial, trivial⟩
    rw [hn] at h
    obtain rfl := Except.error.inj h
    rw [hc] at hne
    rw [hn, hc]
    exact ⟨hsecond.1, hne, rfl, Or.inl ⟨hsecond.2, rfl⟩⟩
  · rw [hn] at h
    cases h
  · rw [hn] at h
    obtain rfl := Except.error.inj h
    rw [hc] at hne
    have hfault := literalFault_of_evaluate he
    rw [hn, hc]
    exact ⟨hfault.isNumeric.1, hne, rfl, Or.inr ⟨hfault.isNumeric.2, hfault.offset_lt hne⟩⟩

end Reading

/-! ### The lexer behind an error -/

namespace Lexer

variable {l l' : Lexer} {e : ScanError}

theorem position_moved {c : Char} {t : Text} (hr : l.tokenCursor.rest = c :: t) :
    (l.moved (Reading.ofText c t).lexeme.length).position =
      l.tokenCursor.position + (Reading.ofText c t).lexeme.byteLength := by
  change (l.tokenCursor.advanceBy _).position = _
  rw [Cursor.position_advanceBy, hr, ← List.prefix_iff_eq_take.mp (Reading.lexeme_isPrefix c t)]

/-- **What a call with an error does,** whatever rule it comes from. -/
theorem moved_of_error (h : l.nextToken = (.error e, l')) :
    ∃ c t e', l.tokenCursor.rest = c :: t ∧ (Reading.ofText c t).outcome = .error e' ∧
      e = e'.shift l'.tokenStart ∧ l' = l.moved (Reading.ofText c t).lexeme.length ∧
      l'.position = l'.tokenStart + (Reading.ofText c t).lexeme.byteLength := by
  rcases nextToken_cases l with ⟨-, hn⟩ | ⟨c, t, hr, ⟨k, -, hn⟩ | ⟨e', ho, hn⟩⟩
  · simp [hn] at h
  · simp [hn] at h
  · rw [hn] at h
    simp only [Prod.mk.injEq, Except.error.injEq] at h
    obtain ⟨rfl, rfl⟩ := h
    exact ⟨c, t, e', hr, ho, rfl, rfl, position_moved hr⟩

/-- Behind the blanks there are no blanks to skip. -/
theorem tokenCursor_moved_zero (l : Lexer) : (l.moved 0).tokenCursor = l.tokenCursor := by
  change (if l.keepBlanks then l.tokenCursor
    else l.tokenCursor.advanceWhile Char.isWhitespace) = _
  unfold tokenCursor
  split
  · rfl
  · exact Cursor.advanceWhile_advanceWhile ..

theorem nextToken_moved_zero (l : Lexer) : (l.moved 0).nextToken = l.nextToken := by
  unfold nextToken
  simp only [tokenCursor_moved_zero]
  split <;> rfl

/-- **A lexer that has consumed nothing repeats its error,** call after call. -/
theorem after_error (h : l.nextToken = (.error e, l')) (hl : l' = l.moved 0) (n : ℕ) :
    (l'.after n).nextToken = (.error e, l') := by
  have hrepeat : l'.nextToken = (.error e, l') := by
    conv => lhs; rw [hl, nextToken_moved_zero]
    exact h
  have hafter : ∀ n, l'.after n = l' := by
    intro n
    induction n with
    | zero => rfl
    | succ n ih => rw [after, hrepeat, ih]
  rw [hafter, hrepeat]

end Lexer

open Lexer Reading

/-- **Where a lexer stands after an error,** whatever was asked of it before. If the fault is none of
a numeric literal, it stands at the offset of the error, and every further call gives the same error
and leaves it as it is. If the fault is one of a numeric literal, it stands behind the part of the
literal that was captured, which is not empty; a second `r` or `e` follows there, and any other fault
lies within the literal. -/
theorem nextToken_error_place {text : Text} {start : ℕ} {requests : List Request} {e : ScanError}
    {l' : Lexer} (h : ((ofOffset text start).serveAll requests).nextToken = (.error e, l')) :
    (¬ e.fault.IsNumeric →
      l'.position = e.offset ∧ l'.tokenStart = e.offset ∧
        ∀ n, (l'.after n).nextToken = (.error e, l')) ∧
    (e.fault.IsNumeric →
      l'.tokenStart < l'.position ∧ l'.tokenStart ≤ e.offset ∧ e.offset ≤ l'.position ∧
      l'.position = l'.tokenStart + (capture {} (text.fromByte l'.tokenStart)).1.byteLength ∧
      (e.fault.IsSecondMark → l'.position = e.offset) ∧
      (¬ e.fault.IsSecondMark → e.offset < l'.position)) := by
  obtain ⟨c, t, e', hr, ho, rfl, hl, hpos⟩ := moved_of_error h
  rcases refuse_or_number_of_error ho with ⟨hplain, hrefuse, hoff⟩ | ⟨hstart, hnumber⟩
  · rw [hrefuse] at hl hpos
    have hplace : l'.tokenStart = (e'.shift l'.tokenStart).offset := by
      rw [ScanError.offset_shift, hoff, Nat.add_zero]
    exact ⟨fun _ => ⟨hpos.trans hplace, hplace, after_error h hl⟩, fun hn => absurd hn hplain⟩
  · rw [hnumber] at ho hpos
    obtain ⟨hnumeric, hne, hlexeme, hkind⟩ := number_error hstart ho
    have hlen : 0 < (number (c :: t)).lexeme.byteLength :=
      Nat.lt_of_lt_of_le (List.length_pos_iff.mpr hne) (Text.length_le_byteLength _)
    have hrest : text.fromByte l'.tokenStart = c :: t := by
      rw [← hr, Cursor.rest_eq, source_tokenCursor, source_serveAll, hl]
      rfl
    refine ⟨fun hn => absurd hnumeric hn, fun _ => ?_⟩
    rw [hrest, ← hlexeme, ScanError.offset_shift]
    refine ⟨by omega, by omega, by omega, hpos, fun hsecond => ?_, fun hwithin => ?_⟩
    · obtain ⟨-, hoff⟩ := hkind.resolve_right fun hk => hk.1 hsecond
      omega
    · obtain ⟨-, hoff⟩ := hkind.resolve_left fun hk => hwithin hk.1
      omega

/-- Two faults of numbers are passed one after another, and a single backslash is not. -/
theorem nextToken_error_place_passed :
    let l := ofOffset ('$' :: 'é' :: " 2r3 1ee \\ 5".toList) 0
    let digit := (l.serveAll [.next]).nextToken.2
    let mark := (l.serveAll [.next, .nextToken]).nextToken.2
    let stuck := (l.serveAll [.next, .nextToken, .nextToken, .withBlanks true, .next,
      .withBlanks false]).nextToken.2
    (digit.tokenStart < digit.position ∧ 6 < digit.position) ∧
      (mark.tokenStart < mark.position ∧ mark.position = 10) ∧
      (stuck.position = 12 ∧ stuck.tokenStart = 12 ∧
        ∀ n, (stuck.after n).nextToken = (.error ⟨.trailingBackslash, 12⟩, stuck)) := by
  intro l digit mark stuck
  have herror : ∀ {l : Lexer} {e : ScanError}, l.nextToken.1 = .error e →
      l.nextToken = (.error e, l.nextToken.2) := fun h => h ▸ rfl
  have hdigit : (l.serveAll [.next]).nextToken = (.error ⟨.invalidDigit '3' 2, 6⟩, digit) :=
    herror (by decide +kernel)
  have hmark : (l.serveAll [.next, .nextToken]).nextToken =
      (.error ⟨.multipleExponent, 10⟩, mark) := herror (by decide +kernel)
  have hstuck : (l.serveAll [.next, .nextToken, .nextToken, .withBlanks true, .next,
      .withBlanks false]).nextToken = (.error ⟨.trailingBackslash, 12⟩, stuck) :=
    herror (by decide +kernel)
  obtain ⟨hlt, -, -, -, -, hwithin⟩ := (nextToken_error_place hdigit).2 trivial
  obtain ⟨hlt', -, -, -, hsecond, -⟩ := (nextToken_error_place hmark).2 trivial
  exact ⟨⟨hlt, hwithin id⟩, ⟨hlt', hsecond trivial⟩, (nextToken_error_place hstuck).1 id⟩

end Smalltalk
