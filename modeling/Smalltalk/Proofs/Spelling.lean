import Smalltalk.Proofs.Rules

/-! # How a token is spelled

The source form of a token puts back what reading took away: the mark or the delimiters of its kind,
and the second of each pair of backquotes. Numbers have many source forms, so their source is only
related to the value, by evaluation.

* `Token.source`: the source form of a token.
* `Token.HasShape`: the values a token of each kind can have.
* `Token.WrittenAs`: a token was read from these characters. At the end of a text the closing
  delimiter of a string or comment may be missing.
* `Reading.written_ofText`: every token is written as the characters it was read from.
* `Reading.shaped_ofText`: every token that is read has the shape of its kind. -/

namespace Smalltalk

namespace Text

/-- The text with every backquote doubled. -/
def doubled (t : Text) : Text := t.flatMap fun c => if c = '\x60' then [c, c] else [c]

@[simp] theorem doubled_nil : doubled [] = [] := rfl

theorem doubled_cons_backquote (t : Text) : doubled ('\x60' :: t) = '\x60' :: '\x60' :: doubled t :=
  rfl

theorem doubled_cons {c : Char} (h : c ≠ '\x60') (t : Text) :
    doubled (c :: t) = c :: doubled t := by
  simp [doubled, h]

/-- A letter, and then letters and digits. -/
def IsName (t : Text) : Prop := ∃ c cs, t = c :: cs ∧ c.isAlpha ∧ ∀ d ∈ cs, d.isAlphanum

end Text

theorem isAlphanum_of_isAlpha {c : Char} (h : c.isAlpha) : c.isAlphanum := by
  simp [Char.isAlphanum, h]

theorem isWhitespace_of_isAlphanum {c : Char} (h : c.isAlphanum) : c.isWhitespace = false := by
  rw [Bool.eq_false_iff]
  intro hw
  simp only [Char.isWhitespace, Bool.or_eq_true, decide_eq_true_eq, or_assoc] at hw
  rcases hw with rfl | rfl | rfl | rfl <;> revert h <;> decide

namespace Token

/-- **The source form of a token.** -/
def source (k : Token) : Text :=
  match k.kind with
  | .special | .number | .identifier | .whitespace => k.value
  | .parameter => k.value ++ [':']
  | .blockArgument => ':' :: k.value
  | .char => '$' :: k.value
  | .symbol => '#' :: k.value
  | .comment => '\x22' :: k.value ++ ['\x22']
  | .string => '\x60' :: k.value.doubled ++ ['\x60']

/-- The spellings of special tokens. -/
def spellings : List Text :=
  ["+", "*", ".", ";", "[", "]", "(", ")", "|", "^", "&", "@", "-", "=", "==", "/", "//", "\\\\",
    ">", ">=", "<", "<-", "<=", "~~", "~=", "#("].map String.toList

/-- The value is one that a token of its kind can have. -/
def HasShape (k : Token) : Prop :=
  match k.kind with
  | .identifier | .parameter | .blockArgument => k.value.IsName
  | .symbol => k.value.head?.any Char.isAlphanum ∧ ∀ c ∈ k.value, ¬ c.isWhitespace
  | .char => k.value.length = 1
  | .comment => '\x22' ∉ k.value
  | .string => True
  | .special => k.value ∈ spellings
  | .whitespace => k.value ≠ [] ∧ ∀ c ∈ k.value, c.isWhitespace
  | .number => ∃ v : Double, k.value = v.toText

/-- The token was read from the characters `w`; `atEnd` says that the text ends with them. -/
def WrittenAs (k : Token) (w : Text) (atEnd : Prop) : Prop :=
  match k.kind with
  | .number => ∃ v, Numeral.evaluate w = .ok v ∧ k.value = v.toText
  | .comment => w = k.source ∨ atEnd ∧ w ++ ['\x22'] = k.source
  | .string => w = k.source ∨ atEnd ∧ w ++ ['\x60'] = k.source
  | _ => w = k.source

theorem writtenAs_source {k : Token} (h : k.kind ≠ .number) (atEnd : Prop) :
    k.WrittenAs k.source atEnd := by
  unfold WrittenAs
  split
  · next hk => exact absurd hk h
  · exact Or.inl rfl
  · exact Or.inl rfl
  · rfl

theorem WrittenAs.imp {k : Token} {w : Text} {p q : Prop} (h : k.WrittenAs w p) (hpq : p → q) :
    k.WrittenAs w q := by
  obtain ⟨kind, value⟩ := k
  cases kind with
  | comment => exact Or.imp_right (And.imp_left hpq) h
  | string => exact Or.imp_right (And.imp_left hpq) h
  | _ => exact h

end Token

namespace Reading

/-! ### What each rule reads -/

theorem stringBody_eq (t : Text) :
    (stringBody t).2 = (stringBody t).1.doubled ++ ['\x60'] ∨
      (stringBody t).2 = (stringBody t).1.doubled ∧ (stringBody t).2 = t := by
  fun_induction stringBody t with
  | case1 => exact Or.inr ⟨rfl, rfl⟩
  | case2 cs body ih =>
    rcases ih with ih | ⟨ih, ih'⟩
    · left
      rw [Text.doubled_cons_backquote]
      simp [body, ih]
    · right
      rw [Text.doubled_cons_backquote]
      exact ⟨by simp [body, ih], by simp [body, ih']⟩
  | case3 cs => exact Or.inl rfl
  | case4 c cs _ hc body ih =>
    rcases ih with ih | ⟨ih, ih'⟩
    · left
      rw [Text.doubled_cons hc]
      simp [body, ih]
    · right
      rw [Text.doubled_cons hc]
      exact ⟨by simp [body, ih], by simp [body, ih']⟩

/-- If a token was read, it is written as the characters that were consumed. -/
def Written (r : Reading) (t : Text) : Prop :=
  ∀ k, r.outcome = .ok k → k.WrittenAs r.lexeme (r.lexeme = t)

theorem written_refuse (fault : ScanFault) (t : Text) : (refuse fault).Written t := by
  rintro k ⟨⟩

theorem written_token {k : Token} (h : k.kind ≠ .number) {t : Text} :
    (token k.kind k.value k.source).Written t := by
  rintro _ ⟨rfl⟩
  exact Token.writtenAs_source h _

theorem written_special (spelling t : Text) : (special spelling).Written t :=
  written_token (k := ⟨.special, spelling⟩) (by simp)

theorem written_number (t u : Text) : (number t).Written u := by
  intro k h
  rcases number_cases t with
    ⟨literal, fault, -, hn⟩ | ⟨literal, v, -, hv, hn⟩ | ⟨literal, e, -, -, hn⟩
  · simp [hn] at h
  · rw [hn] at h ⊢
    obtain rfl := Except.ok.inj h
    exact ⟨v, hv, rfl⟩
  · simp [hn] at h

theorem written_name (t u : Text) : (name t).Written u := by
  unfold name
  dsimp only
  split
  · exact written_token (k := ⟨.parameter, t.takeWhile Char.isAlphanum⟩) (by simp)
  · exact written_token (k := ⟨.identifier, t.takeWhile Char.isAlphanum⟩) (by simp)

theorem written_blockArgument (t u : Text) : (blockArgument t).Written u := by
  unfold blockArgument
  split
  · exact written_refuse _ _
  · split
    · exact written_token (k := ⟨.blockArgument, t.takeWhile Char.isAlphanum⟩) (by simp)
    · exact written_refuse _ _

theorem written_char (t u : Text) : (char t).Written u := by
  unfold char
  split
  · exact written_refuse _ _
  · next c _ => exact written_token (k := ⟨.char, [c]⟩) (by simp)

theorem written_hash (t u : Text) : (hash t).Written u := by
  unfold hash
  split
  · exact written_refuse _ _
  · split
    · exact written_token (k := ⟨.symbol, t.takeWhile fun c => !c.isWhitespace⟩) (by simp)
    · split
      · exact written_special _ _
      · exact written_refuse _ _

theorem comment_eq (t : Text) :
    (∃ body, comment t = token .comment body ('\x22' :: body ++ ['\x22'])) ∨
      comment t = token .comment t ('\x22' :: t) := by
  unfold comment
  dsimp only
  have ht := List.takeWhile_append_dropWhile (p := (· ≠ '\x22')) (l := t)
  have hq := List.head?_dropWhile_not (· ≠ '\x22') t
  rcases hd : t.dropWhile (· ≠ '\x22') with _ | ⟨c, r⟩
  · rw [hd, List.append_nil] at ht
    right
    rw [ht, List.take_nil, List.append_nil]
  · rw [hd] at hq
    have hc : c = '\x22' := by simpa using hq
    exact Or.inl ⟨_, by rw [hc]; rfl⟩

theorem written_comment (t : Text) : (comment t).Written ('\x22' :: t) := by
  rcases comment_eq t with ⟨body, h⟩ | h
  · rw [h]
    exact written_token (k := ⟨.comment, body⟩) (by simp)
  · rw [h]
    rintro _ ⟨rfl⟩
    exact Or.inr ⟨rfl, rfl⟩

theorem written_string (t : Text) : (string t).Written ('\x60' :: t) := by
  rintro _ ⟨rfl⟩
  rcases stringBody_eq t with h | ⟨h, ht⟩
  · left
    simp [string, token, Token.source, h]
  · right
    refine ⟨by simp [string, token, ht], ?_⟩
    simp [string, token, Token.source, h]

/-- **Every token is written as the characters it was read from.** -/
theorem written_ofText (c : Char) (t : Text) : (ofText c t).Written (c :: t) := by
  induction c, t using ofText_cases with
  | blanks c t _ h =>
    rw [h]
    exact written_token (k := ⟨.whitespace, (c :: t).takeWhile Char.isWhitespace⟩) (by simp)
  | name c t _ h => rw [h]; exact written_name _ _
  | number c t _ h => rw [h]; exact written_number _ _
  | special c t _ h => rw [h]; exact written_special _ _
  | oneOrTwo c t _ h =>
    rw [h]
    rcases oneOrTwo_eq c [c] t with h' | ⟨d, -, h'⟩ <;> rw [h'] <;> exact written_special _ _
  | two c seconds fault t _ h =>
    rw [h]
    rcases two_eq c seconds fault t with ⟨d, -, h'⟩ | ⟨h', -⟩
    · rw [h']; exact written_special _ _
    · rw [h']; exact written_refuse _ _
  | notLast c seconds fault t _ h =>
    rw [h]
    rcases notLast_eq c seconds fault t with h' | ⟨d, -, h'⟩ | ⟨h', -⟩
    · rw [h']; exact written_special _ _
    · rw [h']; exact written_special _ _
    · rw [h']; exact written_refuse _ _
  | blockArgument t h => rw [h]; exact written_blockArgument _ _
  | char t h => rw [h]; exact written_char _ _
  | hash t h => rw [h]; exact written_hash _ _
  | comment t h => rw [h]; exact written_comment t
  | string t h => rw [h]; exact written_string t
  | unknown c t h => rw [h]; exact written_refuse _ _

/-! ### The shape of what is read -/

/-- If a token was read, its value is one that its kind can have. -/
def Shaped (r : Reading) : Prop := ∀ k, r.outcome = .ok k → k.HasShape

theorem shaped_refuse (fault : ScanFault) : (refuse fault).Shaped := by
  rintro k ⟨⟩

theorem shaped_token {k : Token} (h : k.HasShape) (lexeme : Text) :
    (token k.kind k.value lexeme).Shaped := by
  rintro _ ⟨rfl⟩
  exact h

theorem shaped_special {spelling : Text} (h : spelling ∈ Token.spellings) :
    (special spelling).Shaped :=
  shaped_token (k := ⟨.special, spelling⟩) h _

theorem shaped_blanks {c : Char} (hc : c.isWhitespace) (t : Text) : (blanks (c :: t)).Shaped := by
  have hall := List.all_takeWhile (p := Char.isWhitespace) (l := c :: t)
  have hne : (c :: t).takeWhile Char.isWhitespace ≠ [] := by
    rw [List.takeWhile_cons_of_pos hc]
    simp
  exact shaped_token (k := ⟨.whitespace, _⟩) ⟨hne, List.all_eq_true.mp hall⟩ _

theorem isName_takeWhile {c : Char} (hc : c.isAlpha) (t : Text) :
    Text.IsName ((c :: t).takeWhile Char.isAlphanum) := by
  have hall := List.all_takeWhile (p := Char.isAlphanum) (l := t)
  rw [List.takeWhile_cons_of_pos (isAlphanum_of_isAlpha hc)]
  exact ⟨c, _, rfl, hc, List.all_eq_true.mp hall⟩

theorem shaped_name {c : Char} (hc : c.isAlpha) (t : Text) : (name (c :: t)).Shaped := by
  have hname := isName_takeWhile hc t
  unfold name
  dsimp only
  split
  · exact shaped_token (k := ⟨.parameter, _⟩) hname _
  · exact shaped_token (k := ⟨.identifier, _⟩) hname _

theorem shaped_number (t : Text) : (number t).Shaped := by
  intro k h
  rcases number_cases t with ⟨literal, fault, -, hn⟩ | ⟨literal, v, -, -, hn⟩ |
    ⟨literal, e, -, -, hn⟩
  · simp [hn] at h
  · rw [hn] at h
    exact shaped_token (k := ⟨.number, _⟩) ⟨v, rfl⟩ _ k h
  · simp [hn] at h

theorem shaped_blockArgument (t : Text) : (blockArgument t).Shaped := by
  unfold blockArgument
  split
  · exact shaped_refuse _
  · next c h =>
    obtain ⟨t', rfl⟩ := List.head?_eq_some_iff.mp h
    split
    · next hc => exact shaped_token (k := ⟨.blockArgument, _⟩) (isName_takeWhile hc t') _
    · exact shaped_refuse _

theorem shaped_char (t : Text) : (char t).Shaped := by
  unfold char
  split
  · exact shaped_refuse _
  · next c _ => exact shaped_token (k := ⟨.char, [c]⟩) rfl _

theorem shaped_hash (t : Text) : (hash t).Shaped := by
  unfold hash
  split
  · exact shaped_refuse _
  · next c h =>
    obtain ⟨t', rfl⟩ := List.head?_eq_some_iff.mp h
    split
    · next hc =>
      have hw : (!c.isWhitespace) = true := by rw [isWhitespace_of_isAlphanum hc]; rfl
      have htake : (c :: t').takeWhile (fun c => !c.isWhitespace) =
          c :: t'.takeWhile (fun c => !c.isWhitespace) := List.takeWhile_cons_of_pos hw
      have hall := List.all_takeWhile (p := fun c : Char => !c.isWhitespace) (l := c :: t')
      refine shaped_token (k := ⟨.symbol, (c :: t').takeWhile fun c => !c.isWhitespace⟩) ⟨?_, ?_⟩ _
      · rw [htake]
        exact hc
      · intro d hd
        simpa using List.all_eq_true.mp hall d hd
    · split
      · exact shaped_special (by decide)
      · exact shaped_refuse _

theorem shaped_comment (t : Text) : (comment t).Shaped := by
  refine shaped_token (k := ⟨.comment, _⟩) ?_ _
  intro hq
  have hall := List.all_takeWhile (p := (· ≠ '\x22')) (l := t)
  simpa using List.all_eq_true.mp hall _ hq

/-- **Every token has the shape of its kind.** -/
theorem shaped_ofText (c : Char) (t : Text) : (ofText c t).Shaped := by
  induction c, t using ofText_cases with
  | blanks c t hc h => rw [h]; exact shaped_blanks hc t
  | name c t hc h => rw [h]; exact shaped_name hc t
  | number c t _ h => rw [h]; exact shaped_number _
  | special c t hc h =>
    rw [h]
    refine shaped_special ?_
    rcases hc with hc | ⟨rfl, -⟩
    · simp only [CharClass.isSingleSpecial, List.contains_eq_mem, decide_eq_true_eq, List.mem_cons,
        List.not_mem_nil, or_false] at hc
      rcases hc with rfl | rfl | rfl | rfl | rfl | rfl | rfl | rfl | rfl | rfl | rfl | rfl <;>
        decide
    · decide
  | oneOrTwo c t hc h =>
    have hs : [c] ∈ Token.spellings ∧ [c, c] ∈ Token.spellings := by
      rcases hc with rfl | rfl <;> decide
    rw [h]
    rcases oneOrTwo_eq c [c] t with h' | ⟨d, hd, h'⟩ <;> rw [h']
    · exact shaped_special hs.1
    · rw [List.mem_singleton.mp hd]
      exact shaped_special hs.2
  | two c seconds fault t hc h =>
    have hs : seconds.all ([c, ·] ∈ Token.spellings) := by
      rcases hc with ⟨rfl, rfl, -⟩ | ⟨rfl, rfl, -⟩ <;> decide
    rw [h]
    rcases two_eq c seconds fault t with ⟨d, hd, h'⟩ | ⟨h', -⟩ <;> rw [h']
    · exact shaped_special (of_decide_eq_true (List.all_eq_true.mp hs d hd))
    · exact shaped_refuse _
  | notLast c seconds fault t hc h =>
    have hs : [c] ∈ Token.spellings ∧ seconds.all ([c, ·] ∈ Token.spellings) := by
      rcases hc with ⟨rfl, rfl, -⟩ | ⟨rfl, rfl, -⟩ <;> decide
    rw [h]
    rcases notLast_eq c seconds fault t with h' | ⟨d, hd, h'⟩ | ⟨h', -⟩ <;> rw [h']
    · exact shaped_special hs.1
    · exact shaped_special (of_decide_eq_true (List.all_eq_true.mp hs.2 d hd))
    · exact shaped_refuse _
  | blockArgument t h => rw [h]; exact shaped_blockArgument t
  | char t h => rw [h]; exact shaped_char t
  | hash t h => rw [h]; exact shaped_hash t
  | comment t h => rw [h]; exact shaped_comment t
  | string t h => rw [h]; exact shaped_token (k := ⟨.string, _⟩) trivial _
  | unknown c t h => rw [h]; exact shaped_refuse _

theorem isWhitespace_of_kind {c : Char} {t : Text} {k : Token}
    (h : (ofText c t).outcome = .ok k) (hk : k.kind = .whitespace) : c.isWhitespace := by
  have hshape := shaped_ofText c t k h
  have hwritten := written_ofText c t k h
  obtain ⟨kind, value⟩ := k
  subst hk
  obtain ⟨hne, hall⟩ : value ≠ [] ∧ ∀ d ∈ value, d.isWhitespace := hshape
  -- the first of the blanks is the first character of the text
  have hlexeme : (ofText c t).lexeme = value := hwritten
  have hpre := lexeme_isPrefix c t
  obtain ⟨d, v, rfl⟩ := List.exists_cons_of_ne_nil hne
  rw [hlexeme] at hpre
  obtain ⟨rfl, -⟩ := List.cons_prefix_cons.mp hpre
  exact hall d (by simp)

end Reading

end Smalltalk
