import Smalltalk.Proofs.Resumption
import Smalltalk.Proofs.Spelling

/-! # Scanning undoes spelling

Tokens of any kind but numbers and blanks are spelled by their source forms, with a space after each
of them. The space ends every token that goes on as far as it can, and no other token looks beyond
its last character, so scanning gives the tokens back, whatever their values are.

* `Token.ReadsBack`: the token is read from its source form in front of a space; one lemma for each
  kind, put together in `Token.readsBack`.
* `scan_spelled`: scanning the spelled tokens gives them back. -/

namespace Smalltalk

/-! ### Runs of characters -/

theorem takeWhile_append_stop {p : Char → Bool} {w : Text} {b : Char} (hw : ∀ c ∈ w, p c)
    (hb : p b = false) (r : Text) : (w ++ b :: r).takeWhile p = w := by
  rw [List.takeWhile_append_of_pos hw, List.takeWhile_cons_of_neg (by simp [hb]), List.append_nil]

theorem dropWhile_append_stop {p : Char → Bool} {w : Text} {b : Char} (hw : ∀ c ∈ w, p c)
    (hb : p b = false) (r : Text) : (w ++ b :: r).dropWhile p = b :: r := by
  rw [List.dropWhile_append_of_pos hw, List.dropWhile_cons_of_neg (by simp [hb])]

theorem isWhitespace_of_isAlpha {c : Char} (h : c.isAlpha) : c.isWhitespace = false :=
  isWhitespace_of_isAlphanum (isAlphanum_of_isAlpha h)

theorem Text.IsName.isAlphanum {t : Text} (h : t.IsName) : ∀ c ∈ t, c.isAlphanum := by
  obtain ⟨c, cs, rfl, hc, hcs⟩ := h
  intro d hd
  rcases List.mem_cons.mp hd with rfl | hd
  · exact isAlphanum_of_isAlpha hc
  · exact hcs d hd

namespace Reading

/-! ### Delimited text -/

theorem comment_of_body {v : Text} (h : '\x22' ∉ v) (r : Text) :
    comment (v ++ '\x22' :: r) = token .comment v ('\x22' :: v ++ ['\x22']) := by
  have hall : ∀ c ∈ v, decide (c ≠ '\x22') = true := fun c hc => by
    rw [decide_eq_true_eq]
    rintro rfl
    exact h hc
  have htake := takeWhile_append_stop (b := '\x22') hall (by decide) r
  have hdrop := dropWhile_append_stop (b := '\x22') hall (by decide) r
  rw [comment, htake, hdrop]
  rfl

theorem stringBody_close {r : Text} (h : r.head? ≠ some '\x60') :
    stringBody ('\x60' :: r) = ([], ['\x60']) := by
  rcases r with _ | ⟨d, r⟩
  · rfl
  · have hd : d ≠ '\x60' := by simpa using h
    simp [stringBody, hd]

theorem stringBody_doubled (v : Text) {r : Text} (h : r.head? ≠ some '\x60') :
    stringBody (v.doubled ++ '\x60' :: r) = (v, v.doubled ++ ['\x60']) := by
  induction v with
  | nil => exact stringBody_close h
  | cons c v ih =>
    by_cases hc : c = '\x60'
    · subst hc
      rw [Text.doubled_cons_backquote]
      simp [stringBody, ih]
    · rw [Text.doubled_cons hc, List.cons_append, stringBody, if_neg hc, ih]
      · rfl
      · intro cs hcs
        exact absurd hcs hc

end Reading

namespace Token

/-! ### One token -/

/-- In front of a space, the token is read from its source form, which starts with no blank. -/
def ReadsBack (k : Token) : Prop :=
  ∀ r, ∃ c t, k.source ++ ' ' :: r = c :: t ∧ c.isWhitespace = false ∧
    Reading.ofText c t = ⟨.ok k, k.source⟩

theorem readsBack_identifier {v : Text} (h : v.IsName) : ReadsBack ⟨.identifier, v⟩ := by
  intro r
  have hall := h.isAlphanum
  obtain ⟨c, cs, rfl, hc, -⟩ := h
  have hw := isWhitespace_of_isAlpha hc
  have htake := takeWhile_append_stop (b := ' ') hall (by decide) r
  have hdrop := dropWhile_append_stop (b := ' ') hall (by decide) r
  refine ⟨c, cs ++ ' ' :: r, rfl, hw, ?_⟩
  simp only [Reading.ofText, hw, hc, if_true]
  rw [← List.cons_append, Reading.name, htake, hdrop]
  rfl

theorem readsBack_parameter {v : Text} (h : v.IsName) : ReadsBack ⟨.parameter, v⟩ := by
  intro r
  have hall := h.isAlphanum
  obtain ⟨c, cs, rfl, hc, -⟩ := h
  have hw := isWhitespace_of_isAlpha hc
  have htake := takeWhile_append_stop (b := ':') hall (by decide) (' ' :: r)
  have hdrop := dropWhile_append_stop (b := ':') hall (by decide) (' ' :: r)
  refine ⟨c, cs ++ ':' :: ' ' :: r, by simp [source], hw, ?_⟩
  simp only [Reading.ofText, hw, hc, if_true]
  rw [← List.cons_append, Reading.name, htake, hdrop]
  rfl

theorem readsBack_blockArgument {v : Text} (h : v.IsName) : ReadsBack ⟨.blockArgument, v⟩ := by
  intro r
  have htake := takeWhile_append_stop (b := ' ') h.isAlphanum (by decide) r
  obtain ⟨c, cs, rfl, hc, -⟩ := h
  refine ⟨':', c :: cs ++ ' ' :: r, rfl, by decide, ?_⟩
  change Reading.blockArgument (c :: cs ++ ' ' :: r) = _
  rw [Reading.blockArgument, htake]
  simp [hc, Reading.token, source]

theorem readsBack_symbol {v : Text} (hv : v.head?.any Char.isAlphanum)
    (hb : ∀ c ∈ v, ¬ c.isWhitespace) : ReadsBack ⟨.symbol, v⟩ := by
  intro r
  have htake := takeWhile_append_stop (p := fun c => !c.isWhitespace) (b := ' ')
    (fun c hc => by simpa using hb c hc) (by decide) r
  rcases v with _ | ⟨c, cs⟩
  · simp at hv
  · refine ⟨'#', c :: cs ++ ' ' :: r, rfl, by decide, ?_⟩
    change Reading.hash (c :: cs ++ ' ' :: r) = _
    have hc : c.isAlphanum := by simpa using hv
    rw [Reading.hash, htake]
    simp [hc, Reading.token, source]

theorem readsBack_char {v : Text} (h : v.length = 1) : ReadsBack ⟨.char, v⟩ := by
  intro r
  obtain ⟨c, rfl⟩ := List.length_eq_one_iff.mp h
  exact ⟨'$', c :: ' ' :: r, rfl, by decide, rfl⟩

theorem readsBack_comment {v : Text} (h : '\x22' ∉ v) : ReadsBack ⟨.comment, v⟩ := by
  intro r
  refine ⟨'\x22', v ++ '\x22' :: ' ' :: r, by simp [source], by decide, ?_⟩
  exact Reading.comment_of_body h (' ' :: r)

theorem readsBack_string (v : Text) : ReadsBack ⟨.string, v⟩ := by
  intro r
  refine ⟨'\x60', v.doubled ++ '\x60' :: ' ' :: r, by simp [source], by decide, ?_⟩
  change Reading.string _ = _
  rw [Reading.string, Reading.stringBody_doubled v (by simp)]
  rfl

theorem readsBack_special {v : Text} (h : v ∈ spellings) : ReadsBack ⟨.special, v⟩ := by
  intro r
  simp only [spellings, List.map_cons, List.map_nil, List.mem_cons, List.not_mem_nil, or_false] at h
  rcases h with rfl | rfl | rfl | rfl | rfl | rfl | rfl | rfl | rfl | rfl | rfl | rfl | rfl | rfl |
    rfl | rfl | rfl | rfl | rfl | rfl | rfl | rfl | rfl | rfl | rfl | rfl <;>
    exact ⟨_, _, rfl, by decide, rfl⟩

/-- **A token with the shape of its kind is read back,** unless it is a number or a run of blanks.
-/
theorem readsBack {k : Token} (h : k.HasShape) (hn : k.kind ≠ .number)
    (hb : k.kind ≠ .whitespace) : k.ReadsBack := by
  obtain ⟨kind, v⟩ := k
  cases kind with
  | special => exact readsBack_special h
  | number => exact absurd rfl hn
  | string => exact readsBack_string v
  | symbol => exact readsBack_symbol h.1 h.2
  | char => exact readsBack_char h
  | identifier => exact readsBack_identifier h
  | parameter => exact readsBack_parameter h
  | blockArgument => exact readsBack_blockArgument h
  | comment => exact readsBack_comment h
  | whitespace => exact absurd rfl hb

/-! ### All tokens -/

/-- The source forms of the tokens, each followed by a space. -/
def spelled (tokens : List Token) : Text := tokens.flatMap fun k => k.source ++ [' ']

theorem spelled_cons (k : Token) (ks : List Token) :
    spelled (k :: ks) = k.source ++ ' ' :: spelled ks := by
  simp [spelled]

theorem readTokens_spelled {tokens : List Token} (h : ∀ k ∈ tokens, k.ReadsBack) (blanks : Text)
    (hb : ∀ c ∈ blanks, c.isWhitespace) :
    (blanks ++ spelled tokens).readTokens false = .ok tokens := by
  -- behind a token the others stand after a blank, so the induction is over any blanks in front
  induction tokens generalizing blanks with
  | nil =>
    refine Text.readTokens_of_nil ?_
    change (blanks ++ []).dropWhile Char.isWhitespace = []
    rw [List.dropWhile_append_of_pos hb, List.dropWhile_nil]
  | cons k ks ih =>
    obtain ⟨c, t, hct, hc, hr⟩ := h k (by simp) (spelled ks)
    have hdrop : (blanks ++ spelled (k :: ks)).dropBlanks false = c :: t := by
      rw [spelled_cons, hct]
      exact dropWhile_append_stop hb hc t
    exact Text.readTokens_cons hdrop hr hct.symm
      (ih (fun k' hk' => h k' (by simp [hk'])) [' '] (by simp))

end Token

/-- **Scanning undoes spelling.** -/
theorem scan_spelled {tokens : List Token}
    (h : ∀ k ∈ tokens, k.HasShape ∧ k.kind ≠ .number ∧ k.kind ≠ .whitespace) :
    scan (Token.spelled tokens) 0 false = .ok ⟨tokens, (Token.spelled tokens).byteLength⟩ := by
  have hread : ((Token.spelled tokens).fromByte 0).readTokens false = .ok tokens := by
    rw [Text.fromByte_zero]
    exact Token.readTokens_spelled
      (fun k hk => Token.readsBack (h k hk).1 (h k hk).2.1 (h k hk).2.2) [] (by simp)
  rw [scan_of_readTokens (Text.isBoundary_zero _).canStart hread, Text.fromByte_zero, Nat.zero_add]

theorem scan_spelled_odd_values :
    Token.spelled [⟨.char, [' ']⟩, ⟨.string, "``".toList⟩, ⟨.symbol, ['1', ':']⟩,
        ⟨.comment, ['\x60']⟩, ⟨.blockArgument, ['a', '1']⟩] =
      "$  `````` #1: \"`\" :a1 ".toList ∧
    scan (Token.spelled [⟨.char, [' ']⟩, ⟨.string, "``".toList⟩, ⟨.symbol, ['1', ':']⟩,
        ⟨.comment, ['\x60']⟩, ⟨.blockArgument, ['a', '1']⟩]) 0 false =
      .ok ⟨[⟨.char, [' ']⟩, ⟨.string, "``".toList⟩, ⟨.symbol, ['1', ':']⟩,
        ⟨.comment, ['\x60']⟩, ⟨.blockArgument, ['a', '1']⟩], 22⟩ := by
  refine ⟨rfl, scan_spelled fun k hk => ?_⟩
  simp only [List.mem_cons, List.not_mem_nil, or_false] at hk
  rcases hk with rfl | rfl | rfl | rfl | rfl
  · exact ⟨rfl, by decide, by decide⟩
  · exact ⟨trivial, by decide, by decide⟩
  · exact ⟨⟨rfl, by simp⟩, by decide, by decide⟩
  · exact ⟨show '\x22' ∉ ['\x60'] by decide, by decide, by decide⟩
  · exact ⟨⟨'a', ['1'], rfl, by decide, by simp⟩, by decide, by decide⟩

end Smalltalk
