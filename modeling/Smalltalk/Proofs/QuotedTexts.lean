import Mathlib.Data.List.Basic
import Smalltalk.Proofs.TemplateValues

/-! # Quoted texts read back

A text between double quotes is read character by character: a quote ends it, a backslash starts an
escape sequence, and other characters stand for themselves. Which escape sequences there are and
which characters may stand for themselves differs from one notation to another; a notation that
writes every character as itself or as an escape sequence for it is read back as it was written.

* `Text.delimited?`: reads up to the closing quote, by the rules of a notation.
* `Text.delimited?_flatMap`: what a notation writes is read back.
* `Text.ofQuoted?`: reads a quoted text, with its letters for controls and code points in braces.
* `Text.ofQuoted?_quoted`: a quoted text reads back, and `Text.isPrintable_of_mem_quoted`: it shows
  every character. -/

namespace Smalltalk

namespace Text

/-! ### Texts between double quotes -/

/-- The text up to the closing double quote, and what is behind it. What follows a backslash is read
by `escape?`, which leaves a part of it; of the other characters those may stand for themselves that
`plain` allows. -/
def delimited? (escape? : Text → Option (Char × Text)) (plain : Char → Bool) :
    Text → Option (Text × Text)
  | [] => none
  | c :: t =>
    if c = '\x22' then some ([], t)
    else if c = '\\' then
      match escape? t with
      | none => none
      | some (d, rest) =>
        if rest.length ≤ t.length then
          (delimited? escape? plain rest).map fun (value, behind) => (d :: value, behind)
        else none
    else if plain c then
      (delimited? escape? plain t).map fun (value, behind) => (c :: value, behind)
    else none
termination_by t => t.length
decreasing_by all_goals simp only [List.length_cons]; omega

section

variable {escape? : Text → Option (Char × Text)} {plain : Char → Bool} {form : Char → Text}

/-- A notation writes a character as itself or as an escape sequence that stands for it. -/
def Stands (escape? : Text → Option (Char × Text)) (plain : Char → Bool) (c : Char) (form : Text) :
    Prop :=
  (form = [c] ∧ c ≠ '\x22' ∧ c ≠ '\\' ∧ plain c) ∨
    ∃ escaped, form = '\\' :: escaped ∧ ∀ rest, escape? (escaped ++ rest) = some (c, rest)

theorem Stands.delimited?_append {c : Char} {w : Text} (h : Stands escape? plain c w)
    (rest : Text) : delimited? escape? plain (w ++ rest) =
      (delimited? escape? plain rest).map fun (value, behind) => (c :: value, behind) := by
  rcases h with ⟨rfl, hquote, hbackslash, hplain⟩ | ⟨escaped, rfl, hescape⟩
  · rw [List.singleton_append, delimited?, if_neg hquote, if_neg hbackslash, if_pos hplain]
  · have hlength : rest.length ≤ (escaped ++ rest).length := by simp
    rw [List.cons_append, delimited?, if_neg (by decide), if_pos rfl, hescape]
    dsimp only
    rw [if_pos hlength]

/-- **What a notation writes is read back,** whatever is behind the closing quote. -/
theorem delimited?_flatMap (h : ∀ c, Stands escape? plain c (form c)) (t rest : Text) :
    delimited? escape? plain (t.flatMap form ++ '\x22' :: rest) = some (t, rest) := by
  induction t with
  | nil => rw [List.flatMap_nil, List.nil_append, delimited?, if_pos rfl]
  | cons c t ih => rw [List.flatMap_cons, List.append_assoc, (h c).delimited?_append, ih]; rfl

end

/-! ### Hexadecimal numerals -/

theorem hexDigit?_digitChar : ∀ d < 16, Template.hexDigit? (Nat.digitChar d) = some d := by decide

/-- Hexadecimal digits are read one after the other. -/
theorem exists_mapM_hexadecimal (n : Nat) : ∃ values,
    (hexadecimal n).mapM Template.hexDigit? = some values ∧
      values.foldl (fun n d => 16 * n + d) 0 = n := by
  unfold hexadecimal
  induction n using Nat.base_induction 16 (by decide) with
  | single m hm =>
    rw [Nat.toDigits_of_lt_base hm]
    exact ⟨[m], by simp [hexDigit?_digitChar m hm], by simp⟩
  | digit m k hk hm ih =>
    obtain ⟨values, hvalues, hsum⟩ := ih
    rw [← Nat.toDigits_append_toDigits (by decide) hm hk, Nat.toDigits_of_lt_base hk]
    refine ⟨values ++ [k], ?_, ?_⟩
    · rw [List.mapM_append, hvalues]
      simp [hexDigit?_digitChar k hk]
    · rw [List.foldl_append, hsum]
      rfl

theorem hexValue?_hexadecimal (n : Nat) : Template.hexValue? (hexadecimal n) = some n := by
  obtain ⟨values, hvalues, hsum⟩ := exists_mapM_hexadecimal n
  have hne : hexadecimal n ≠ [] := Nat.toDigits_ne_nil
  rw [Template.hexValue?, if_neg hne, hvalues, Option.map_some, hsum]

theorem exists_digitChar_of_mem_hexadecimal {c : Char} {n : Nat} (h : c ∈ hexadecimal n) :
    ∃ d < 16, c = Nat.digitChar d := by
  unfold hexadecimal at h
  induction n using Nat.base_induction 16 (by decide) with
  | single m hm =>
    rw [Nat.toDigits_of_lt_base hm, List.mem_singleton] at h
    exact ⟨m, hm, h⟩
  | digit m k hk hm ih =>
    rw [← Nat.toDigits_append_toDigits (by decide) hm hk, Nat.toDigits_of_lt_base hk,
      List.mem_append, List.mem_singleton] at h
    rcases h with h | h
    · exact ih h
    · exact ⟨k, hk, h⟩

/-! ### Quoted texts -/

/-- A character that stands for itself in a quoted text. -/
def isShown (c : Char) : Bool := !isExtending c && isPrintable c

/-- The character with the code point in braces at the front, and what is behind it. -/
def codePoint? (t : Text) : Option (Char × Text) :=
  match t with
  | '\x7b' :: t =>
    match cut '\x7d' t with
    | (digits, some rest) =>
      (Template.hexValue? digits).bind fun code =>
        if code.isValidChar then some (Char.ofNat code, rest) else none
    | (_, none) => none
  | _ => none

/-- What an escape sequence of a quoted text stands for, from what follows its backslash, and the
text behind it. -/
def quotedEscape? : Text → Option (Char × Text)
  | '0' :: t => some ('\x00', t)
  | 't' :: t => some ('\t', t)
  | 'n' :: t => some ('\n', t)
  | 'r' :: t => some ('\r', t)
  | '\x22' :: t => some ('\x22', t)
  | '\\' :: t => some ('\\', t)
  | 'u' :: t => codePoint? t
  | _ => none

/-- **The text that a quoted text shows,** if it is one. -/
def ofQuoted? : Text → Option Text
  | '\x22' :: t =>
    match delimited? quotedEscape? isShown t with
    | some (value, []) => some value
    | _ => none
  | _ => none

theorem codePoint?_append (c : Char) (rest : Text) :
    codePoint? ('\x7b' :: (hexadecimal c.toNat ++ '\x7d' :: rest)) = some (c, rest) := by
  have hbrace : '\x7d' ∉ hexadecimal c.toNat := by
    intro h
    obtain ⟨d, hd, hc⟩ := exists_digitChar_of_mem_hexadecimal h
    have hno : ∀ d < 16, '\x7d' ≠ Nat.digitChar d := by decide
    exact hno d hd hc
  have hvalid : c.toNat.isValidChar := c.valid
  simp only [codePoint?, cut_append hbrace, cut_cons_self, List.append_nil, hexValue?_hexadecimal,
    Option.bind_some, if_pos hvalid, Char.ofNat_toNat]

theorem stands_quotedChar (c : Char) : Stands quotedEscape? isShown c (quotedChar c) := by
  unfold quotedChar
  split
  · exact Or.inr ⟨['0'], rfl, fun _ => rfl⟩
  · exact Or.inr ⟨['t'], rfl, fun _ => rfl⟩
  · exact Or.inr ⟨['n'], rfl, fun _ => rfl⟩
  · exact Or.inr ⟨['r'], rfl, fun _ => rfl⟩
  · exact Or.inr ⟨['\x22'], rfl, fun _ => rfl⟩
  · exact Or.inr ⟨['\\'], rfl, fun _ => rfl⟩
  · next hquote hbackslash =>
    split
    · refine Or.inr ⟨'u' :: '\x7b' :: (hexadecimal c.toNat ++ ['\x7d']), rfl, fun rest => ?_⟩
      have hescape := codePoint?_append c rest
      simpa [quotedEscape?] using hescape
    · next hshown =>
      refine Or.inl ⟨rfl, hquote, hbackslash, ?_⟩
      simpa [isShown] using hshown

/-- **A quoted text shows the text it was made of.** -/
theorem ofQuoted?_quoted (t : Text) : ofQuoted? t.quoted = some t := by
  have hbody := delimited?_flatMap stands_quotedChar t []
  have hquoted : t.quoted = '\x22' :: (t.flatMap quotedChar ++ ['\x22']) := rfl
  rw [hquoted, ofQuoted?, hbody]

/-! ### Visible characters -/

theorem isPrintable_of_ascii {c : Char} (hlow : 0x20 ≤ c.toNat) (hhigh : c.toNat < 0x7F) :
    isPrintable c = true := by
  have hranges : ∀ r ∈ unprintable, r.2 < 0x20 ∨ 0x7F ≤ r.1 := by decide +kernel
  simp only [isPrintable, Bool.not_eq_true', List.any_eq_false, Bool.and_eq_true,
    decide_eq_true_eq, not_and]
  intro r hr hfirst
  have := hranges r hr
  omega

/-- A character is written in ASCII, or as itself if it is shown. -/
theorem ascii_of_mem_quotedChar {c d : Char} (h : d ∈ quotedChar c) :
    (0x20 ≤ d.toNat ∧ d.toNat < 0x7F) ∨ isPrintable d = true := by
  have hascii : ∀ t : Text, (∀ e ∈ t, 0x20 ≤ e.toNat ∧ e.toNat < 0x7F) → d ∈ t →
      (0x20 ≤ d.toNat ∧ d.toNat < 0x7F) ∨ isPrintable d = true := fun t ht hd => Or.inl (ht d hd)
  unfold quotedChar at h
  split at h
  iterate 6 exact hascii _ (forall_of_all (by decide)) h
  split at h
  · simp only [codePoint, List.mem_append] at h
    rcases h with (h | h) | h
    · exact hascii _ (forall_of_all (by decide)) h
    · obtain ⟨k, hk, rfl⟩ := exists_digitChar_of_mem_hexadecimal h
      have hdigits : ∀ k < 16, 0x20 ≤ (Nat.digitChar k).toNat ∧ (Nat.digitChar k).toNat < 0x7F := by
        decide
      exact Or.inl (hdigits k hk)
    · exact hascii _ (forall_of_all (by decide)) h
  · next hshown =>
    obtain rfl : d = c := List.mem_singleton.mp h
    simp only [Bool.or_eq_true, Bool.not_eq_true', not_or, Bool.not_eq_false] at hshown
    exact Or.inr hshown.2

/-- **A quoted text has a visible form for every character** of the text it shows. -/
theorem isPrintable_of_mem_quoted {t : Text} {c : Char} (h : c ∈ t.quoted) :
    isPrintable c = true := by
  have hquote : isPrintable '\x22' = true := isPrintable_of_ascii (by decide) (by decide)
  simp only [quoted, List.mem_append, List.mem_singleton, List.mem_flatMap] at h
  rcases h with (rfl | ⟨d, -, h⟩) | rfl
  · exact hquote
  · exact (ascii_of_mem_quotedChar h).elim (fun h => isPrintable_of_ascii h.1 h.2) id
  · exact hquote

end Text

end Smalltalk
