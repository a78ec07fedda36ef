import Smalltalk.Proofs.Rendering
import Smalltalk.Proofs.RoundTrip

/-! # Strings as template literals

A string is written with its backquotes doubled and rendered as a template literal, in which
backslashes, backquotes and a dollar sign before a brace stand behind a backslash. The two escapes
together give the string back: no part of it ends the literal, starts a substitution or escapes what
follows it.

* `TemplateChar.readAll`: the inside of a template literal from left to right.
* `TemplateChar.readAll_templateBody`: what the inside of a rendered literal reads as.
* `render_string`: every string is rendered as a template literal that reads as the string. -/

namespace Smalltalk

/-- A character inside a template literal, as it stands or behind a backslash. -/
inductive TemplateChar where
  | plain (c : Char)
  | escaped (c : Char)
  deriving DecidableEq

namespace TemplateChar

/-- The character that is meant. -/
def char : TemplateChar → Char
  | plain c => c
  | escaped c => c

/-- The inside of a template literal read from left to right: a backslash and a character stand for
that character, and a backslash with nothing behind it can not be read. -/
def readAll : Text → Option (List TemplateChar)
  | [] => some []
  | '\\' :: c :: t => (readAll t).map (escaped c :: ·)
  | c :: t => if c = '\\' then none else (readAll t).map (plain c :: ·)

theorem readAll_escaped (c : Char) (t : Text) :
    readAll ('\\' :: c :: t) = (readAll t).map (escaped c :: ·) := rfl

theorem readAll_plain {c : Char} (h : c ≠ '\\') (t : Text) :
    readAll (c :: t) = (readAll t).map (plain c :: ·) := by
  rw [readAll, if_neg h]
  intro d t' hc
  exact absurd hc h

theorem readAll_append {s : Text} {chars : List TemplateChar} (h : readAll s = some chars)
    (t : Text) : readAll (s ++ t) = (readAll t).map (chars ++ ·) := by
  fun_induction readAll s generalizing chars with
  | case1 =>
    obtain rfl := Option.some.inj h
    simp
  | case2 c s ih =>
    obtain ⟨chars', hs, rfl⟩ := Option.map_eq_some_iff.mp h
    rw [List.cons_append, List.cons_append, readAll_escaped, ih hs, Option.map_map]
    rfl
  | case3 => cases h
  | case4 c s _ hc ih =>
    obtain ⟨chars', hs, rfl⟩ := Option.map_eq_some_iff.mp h
    rw [List.cons_append, readAll_plain hc, ih hs, Option.map_map]
    rfl

/-! ### The inside of a rendered literal -/

/-- The characters by which a string is rendered. -/
def ofValue : Text → List TemplateChar
  | [] => []
  | c :: t =>
    (if c = '\\' ∨ c = '\x60' ∨ (c = '$' ∧ t.head? = some '\x7b') then escaped c else plain c) ::
      ofValue t

theorem readAll_templateBody (v : Text) : readAll (Script.templateBody v) = some (ofValue v) := by
  induction v with
  | nil => rfl
  | cons c v ih =>
    by_cases hc : c = '\\' ∨ c = '\x60' ∨ (c = '$' ∧ v.head? = some '\x7b')
    · rw [Script.templateBody, if_pos hc, readAll_escaped, ih, ofValue, if_pos hc]
      rfl
    · have hne : c ≠ '\\' := fun h => hc (Or.inl h)
      rw [Script.templateBody, if_neg hc, readAll_plain hne, ih, ofValue, if_neg hc]
      rfl

theorem map_char_ofValue (v : Text) : (ofValue v).map char = v := by
  induction v with
  | nil => rfl
  | cons c v ih =>
    rw [ofValue, List.map_cons, ih]
    split <;> rfl

theorem plain_backquote_notMem_ofValue (v : Text) : plain '\x60' ∉ ofValue v := by
  induction v with
  | nil => simp [ofValue]
  | cons c v ih =>
    rw [ofValue, List.mem_cons, not_or]
    refine ⟨?_, ih⟩
    split
    · simp
    · next hc =>
      intro h
      exact hc (Or.inr (Or.inl (plain.inj h).symm))

theorem head?_of_ofValue {v : Text} {c : Char} {r : List TemplateChar}
    (h : ofValue v = plain c :: r) : v.head? = some c := by
  have hmap := map_char_ofValue v
  rw [h, List.map_cons] at hmap
  rw [← hmap]
  rfl

/-- A dollar sign before a brace is never plain. -/
theorem not_substitution_infix_ofValue (v : Text) :
    ¬ [plain '$', plain '\x7b'] <:+: ofValue v := by
  induction v with
  | nil => simp [ofValue]
  | cons c v ih =>
    rw [ofValue, List.infix_cons_iff, not_or]
    refine ⟨?_, ih⟩
    rw [List.cons_prefix_cons]
    rintro ⟨hfirst, r, hr⟩
    split at hfirst
    · cases hfirst
    · next hc =>
      have hdollar : c = '$' := (plain.inj hfirst).symm
      exact hc (Or.inr (Or.inr ⟨hdollar, head?_of_ofValue hr.symm⟩))

end TemplateChar

/-! ### Strings -/

theorem readTokens_string (v : Text) :
    Text.readTokens true ('\x60' :: v.doubled ++ ['\x60']) = .ok [⟨.string, v⟩] := by
  have hread : Reading.ofText '\x60' (v.doubled ++ ['\x60']) =
      ⟨.ok ⟨.string, v⟩, '\x60' :: v.doubled ++ ['\x60']⟩ := by
    change Reading.string _ = _
    rw [Reading.string, Reading.stringBody_doubled v (by simp)]
    rfl
  exact Text.readTokens_cons rfl hread (List.append_nil _).symm (Text.readTokens_of_nil rfl)

theorem render_eq_templateLiteral (v : Text) :
    render ('\x60' :: v.doubled ++ ['\x60']) = .ok (Script.templateLiteral v) := by
  have hread : (Text.fromByte ('\x60' :: v.doubled ++ ['\x60']) 0).readTokens true =
      .ok [⟨.string, v⟩] := by
    rw [Text.fromByte_zero, readTokens_string]
  have hscan := scan_of_readTokens (Text.isBoundary_zero _).canStart hread
  refine render_of_renderTokens hscan ?_
  simp [renderTokens, Script.ofToken, Except.map]

/-- **Every string is rendered as a template literal that reads as the string.** Read from left to
right, the inside of the literal has no backquote and no start of a substitution that is not
escaped, no backslash that escapes nothing, and the characters it means are those of the string. So
the literal ends with its last character, whatever follows. -/
theorem render_string (content : Text) :
    ∃ interior chars,
      render ('\x60' :: content.doubled ++ ['\x60']) = .ok ('\x60' :: interior ++ ['\x60']) ∧
      TemplateChar.readAll interior = some chars ∧
      .plain '\x60' ∉ chars ∧ ¬ [.plain '$', .plain '\x7b'] <:+: chars ∧
      chars.map (·.char) = content ∧
      ∀ rest, TemplateChar.readAll (interior ++ '\x60' :: rest) =
        (TemplateChar.readAll rest).map (chars ++ .plain '\x60' :: ·) := by
  have hread := TemplateChar.readAll_templateBody content
  refine ⟨Script.templateBody content, TemplateChar.ofValue content,
    render_eq_templateLiteral content, hread, TemplateChar.plain_backquote_notMem_ofValue content,
    TemplateChar.not_substitution_infix_ofValue content, TemplateChar.map_char_ofValue content, ?_⟩
  intro rest
  rw [TemplateChar.readAll_append hread, TemplateChar.readAll_plain (by decide), Option.map_map]
  rfl

example : Script.templateBody "$$\x7b\\`$".toList = "$\\$\x7b\\\\\\`$".toList := by decide

end Smalltalk
