import Smalltalk.Lexeme

/-! # The rules by which a token is read

`Reading.ofText` picks a rule by the first character. `Reading.ofText_cases` lists the rules once,
with what is known of the first character when each of them applies; facts that hold of every
reading are proved from it, one rule at a time.

The operators of one or two characters share the shape of their rules: `Reading.oneOrTwo_eq`,
`Reading.two_eq` and `Reading.notLast_eq` say what these read, and `Reading.number_cases` says what
comes of a numeric literal. All other rules make `Reading.Plain` readings. -/

namespace Smalltalk

/-- The faults of numeric literals, which are consumed before they are judged. -/
def ScanFault.IsNumeric : ScanFault → Prop
  | .multipleRadix | .multipleExponent | .invalidRadix _ | .invalidDigit _ _
  | .malformedNumber _ => True
  | _ => False

namespace Reading

/-- **Every reading is made by one of these rules.** -/
@[elab_as_elim]
theorem ofText_cases {motive : Char → Text → Prop}
    (blanks : ∀ c t, c.isWhitespace → ofText c t = Reading.blanks (c :: t) → motive c t)
    (name : ∀ c t, c.isAlpha → ofText c t = Reading.name (c :: t) → motive c t)
    (number : ∀ c t, c.isDigit ∨ c = '-' ∧ t.head?.any Char.isDigit →
      ofText c t = Reading.number (c :: t) → motive c t)
    (special : ∀ c t, CharClass.isSingleSpecial c ∨ c = '-' ∧ ¬ t.head?.any Char.isDigit →
      ofText c t = Reading.special [c] → motive c t)
    (oneOrTwo : ∀ c t, c = '=' ∨ c = '/' → ofText c t = Reading.oneOrTwo c [c] t → motive c t)
    (two : ∀ c seconds fault t,
      c = '\\' ∧ seconds = ['\\'] ∧ fault = ScanFault.trailingBackslash ∨
        c = '~' ∧ seconds = ['~', '='] ∧ fault = ScanFault.invalidTilde →
      ofText c t = Reading.two c seconds fault t → motive c t)
    (notLast : ∀ c seconds fault t,
      c = '>' ∧ seconds = ['='] ∧ fault = ScanFault.trailingGreater ∨
        c = '<' ∧ seconds = ['-', '='] ∧ fault = ScanFault.trailingLess →
      ofText c t = Reading.notLast c seconds fault t → motive c t)
    (blockArgument : ∀ t, ofText ':' t = Reading.blockArgument t → motive ':' t)
    (char : ∀ t, ofText '$' t = Reading.char t → motive '$' t)
    (hash : ∀ t, ofText '#' t = Reading.hash t → motive '#' t)
    (comment : ∀ t, ofText '\x22' t = Reading.comment t → motive '\x22' t)
    (string : ∀ t, ofText '\x60' t = Reading.string t → motive '\x60' t)
    (unknown : ∀ c t, ofText c t = refuse (.unknownCharacter c) → motive c t)
    (c : Char) (t : Text) : motive c t := by
  have key : ∀ r, ofText c t = r → motive c t := by
    intro r hr
    have h := hr
    unfold ofText at h
    split at h
    · next hc => exact blanks c t hc (hr.trans h.symm)
    split at h
    · next hc => exact name c t hc (hr.trans h.symm)
    split at h
    · next hc => exact number c t (Or.inl hc) (hr.trans h.symm)
    split at h
    · next hc => exact special c t (Or.inl hc) (hr.trans h.symm)
    split at h
    · exact oneOrTwo _ t (Or.inl rfl) (hr.trans h.symm)
    · exact oneOrTwo _ t (Or.inr rfl) (hr.trans h.symm)
    · exact two _ _ _ t (Or.inl ⟨rfl, rfl, rfl⟩) (hr.trans h.symm)
    · exact two _ _ _ t (Or.inr ⟨rfl, rfl, rfl⟩) (hr.trans h.symm)
    · exact notLast _ _ _ t (Or.inl ⟨rfl, rfl, rfl⟩) (hr.trans h.symm)
    · exact notLast _ _ _ t (Or.inr ⟨rfl, rfl, rfl⟩) (hr.trans h.symm)
    · exact blockArgument t (hr.trans h.symm)
    · exact char t (hr.trans h.symm)
    · exact hash t (hr.trans h.symm)
    · unfold minus at h
      split at h
      · next hd => exact number _ t (Or.inr ⟨rfl, hd⟩) (hr.trans h.symm)
      · next hd => exact special _ t (Or.inr ⟨rfl, hd⟩) (hr.trans h.symm)
    · exact comment t (hr.trans h.symm)
    · exact string t (hr.trans h.symm)
    · exact unknown _ t (hr.trans h.symm)
  exact key _ rfl

/-! ### Operators -/

theorem oneOrTwo_eq (c : Char) (seconds t : Text) :
    oneOrTwo c seconds t = special [c] ∨ ∃ d ∈ seconds, oneOrTwo c seconds t = special [c, d] := by
  unfold oneOrTwo
  split
  · exact Or.inl rfl
  · next d _ =>
    split
    · next hd => exact Or.inr ⟨d, hd, rfl⟩
    · exact Or.inl rfl

theorem two_eq (c : Char) (seconds : Text) (fault : ScanFault) (t : Text) :
    (∃ d ∈ seconds, two c seconds fault t = special [c, d]) ∨
      two c seconds fault t = refuse fault ∧ ∀ d ∈ seconds, t.head? ≠ some d := by
  unfold two
  split
  · next h => exact Or.inr ⟨rfl, fun d _ => by rw [h]; simp⟩
  · next d h =>
    split
    · next hd => exact Or.inl ⟨d, hd, rfl⟩
    · next hd =>
      refine Or.inr ⟨rfl, fun d' hd' he => hd ?_⟩
      rw [h, Option.some.injEq] at he
      rw [he]
      exact hd'

theorem notLast_eq (c : Char) (seconds : Text) (fault : ScanFault) (t : Text) :
    notLast c seconds fault t = special [c] ∨
      (∃ d ∈ seconds, notLast c seconds fault t = special [c, d]) ∨
      notLast c seconds fault t = refuse fault ∧ t = [] := by
  unfold notLast
  split
  · next h => exact Or.inr (Or.inr ⟨rfl, h⟩)
  · rcases oneOrTwo_eq c seconds t with h | h
    · exact Or.inl h
    · exact Or.inr (Or.inl h)

/-! ### Numbers -/

theorem number_cases (t : Text) :
    (∃ literal fault, capture {} t = (literal, some fault) ∧
      number t = ⟨.error ⟨fault, literal.byteLength⟩, literal⟩) ∨
    (∃ literal v, capture {} t = (literal, none) ∧ Numeral.evaluate literal = .ok v ∧
      number t = token .number v.toText literal) ∨
    ∃ literal e, capture {} t = (literal, none) ∧ Numeral.evaluate literal = .error e ∧
      number t = ⟨.error e, literal⟩ := by
  unfold number
  obtain ⟨literal, _ | fault⟩ := capture {} t
  · right
    rcases hv : Numeral.evaluate literal with e | v
    · exact Or.inr ⟨literal, e, rfl, hv, by simp only [hv]⟩
    · exact Or.inl ⟨literal, v, rfl, hv, by simp only [hv]⟩
  · exact Or.inl ⟨literal, fault, rfl, rfl⟩

/-! ### All other rules -/

/-- A reading that is settled by its first characters: a token that is no number, or a fault at the
first character. -/
inductive Plain : Reading → Prop
  | token {kind : TokenKind} (hkind : kind ≠ .number) (value lexeme : Text) :
    Plain (token kind value lexeme)
  | refuse {fault : ScanFault} (hfault : ¬ fault.IsNumeric) : Plain (refuse fault)

theorem Plain.kind_ne_number {r : Reading} (h : r.Plain) {k : Token} (hk : r.outcome = .ok k) :
    k.kind ≠ .number := by
  cases h with
  | token hkind value lexeme =>
    obtain rfl := Except.ok.inj hk
    exact hkind
  | refuse hfault => cases hk

theorem plain_special (spelling : Text) : (special spelling).Plain := .token (by decide) _ _

theorem plain_name (t : Text) : (name t).Plain := by
  unfold name
  dsimp only
  split
  · exact .token (by decide) _ _
  · exact .token (by decide) _ _

theorem plain_blockArgument (t : Text) : (blockArgument t).Plain := by
  unfold blockArgument
  split
  · exact .refuse id
  · split
    · exact .token (by decide) _ _
    · exact .refuse id

theorem plain_char (t : Text) : (char t).Plain := by
  unfold char
  split
  · exact .refuse id
  · exact .token (by decide) _ _

theorem plain_hash (t : Text) : (hash t).Plain := by
  unfold hash
  split
  · exact .refuse id
  · split
    · exact .token (by decide) _ _
    · split
      · exact plain_special _
      · exact .refuse id

/-- **One rule reads numbers,** and the others are settled by the first characters. -/
theorem plain_or_number (c : Char) (t : Text) : (ofText c t).Plain ∨
    (c.isDigit ∨ c = '-' ∧ t.head?.any Char.isDigit) ∧ ofText c t = number (c :: t) := by
  induction c, t using ofText_cases with
  | blanks c t _ h => rw [h]; exact Or.inl (.token (by decide) _ _)
  | name c t _ h => rw [h]; exact Or.inl (plain_name _)
  | number c t hc h => exact Or.inr ⟨hc, h⟩
  | special c t _ h => rw [h]; exact Or.inl (plain_special _)
  | oneOrTwo c t _ h =>
    rw [h]
    rcases oneOrTwo_eq c [c] t with h' | ⟨d, -, h'⟩ <;> rw [h'] <;> exact Or.inl (plain_special _)
  | two c seconds fault t hc h =>
    have hfault : ¬ fault.IsNumeric := by rcases hc with ⟨-, -, rfl⟩ | ⟨-, -, rfl⟩ <;> exact id
    rw [h]
    rcases two_eq c seconds fault t with ⟨d, -, h'⟩ | ⟨h', -⟩ <;> rw [h']
    · exact Or.inl (plain_special _)
    · exact Or.inl (.refuse hfault)
  | notLast c seconds fault t hc h =>
    have hfault : ¬ fault.IsNumeric := by rcases hc with ⟨-, -, rfl⟩ | ⟨-, -, rfl⟩ <;> exact id
    rw [h]
    rcases notLast_eq c seconds fault t with h' | ⟨d, -, h'⟩ | ⟨h', -⟩ <;> rw [h']
    · exact Or.inl (plain_special _)
    · exact Or.inl (plain_special _)
    · exact Or.inl (.refuse hfault)
  | blockArgument t h => rw [h]; exact Or.inl (plain_blockArgument t)
  | char t h => rw [h]; exact Or.inl (plain_char t)
  | hash t h => rw [h]; exact Or.inl (plain_hash t)
  | comment t h => rw [h]; exact Or.inl (.token (by decide) _ _)
  | string t h => rw [h]; exact Or.inl (.token (by decide) _ _)
  | unknown c t h => rw [h]; exact Or.inl (.refuse id)

end Reading

end Smalltalk
