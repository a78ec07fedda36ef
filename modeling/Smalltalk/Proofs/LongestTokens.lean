import Mathlib.Data.List.Chain
import Smalltalk.Proofs.NumberText
import Smalltalk.Proofs.Separation
import Smalltalk.Proofs.Tiling

/-! # Tokens go as far as they can

A token has the shape of its kind, and it goes as far as this shape allows: the character behind it
could not belong to it. So no blank stands behind a run of blanks, which therefore never follow each
other; a name ends where its letters and digits end, and one that is no parameter has no colon
behind it; a special token with the next character is no longer special token, and a minus sign is
one only where no digit follows.

* `Token.StopsBefore`: the token does not go on with a character.
* `Reading.stops_ofText`: no reading ends too early.
* `Lexer.Run.stopsBefore`, `Lexer.Run.isChain`: hence no token of a run does, and two runs of blanks
  never follow each other.
* `scan_shapes`: all this of every scan. -/

namespace Smalltalk

/-- **The token does not go on with `c`,** the character behind it. -/
def Token.StopsBefore (k : Token) (c : Char) : Prop :=
  match k.kind with
  | .identifier => c ≠ ':' ∧ ¬ c.isAlphanum
  | .blockArgument => ¬ c.isAlphanum
  | .symbol => c.isWhitespace
  | .whitespace => ¬ c.isWhitespace
  | .special => k.value ++ [c] ∉ Token.spellings ∧ (k.value = ['-'] → ¬ c.isDigit)
  | .number | .string | .char | .parameter | .comment => True

/-! ### Special tokens -/

namespace Token

/-- The characters that make a longer special token out of one. -/
def seconds (c : Char) : List Char :=
  match c with
  | '=' => ['=']
  | '/' => ['/']
  | '\\' => ['\\']
  | '>' => ['=']
  | '<' => ['-', '=']
  | '~' => ['~', '=']
  | '#' => ['(']
  | _ => []

theorem mem_seconds_of_mem_spellings {c d : Char} (h : [c, d] ∈ spellings) : d ∈ seconds c := by
  have hall : ∀ w ∈ spellings, w.length = 2 → w.getLastD ' ' ∈ seconds (w.headD ' ') := by decide
  exact hall _ h rfl

theorem length_of_mem_spellings {w : Text} (h : w ∈ spellings) : w.length ≤ 2 := by
  have hall : ∀ w ∈ spellings, w.length ≤ 2 := by decide
  exact hall w h

theorem seconds_of_isSingleSpecial {c : Char} (h : CharClass.isSingleSpecial c) :
    seconds c = [] := by
  have hall : ∀ c ∈ ['+', '*', '.', ';', '[', ']', '(', ')', '|', '^', '&', '@'],
      seconds c = [] := Text.forall_of_all (by decide)
  exact hall c (by simpa only [CharClass.isSingleSpecial, List.contains_iff_mem] using h)

end Token

/-! ### No reading ends too early -/

namespace Reading

open Token

/-- If a token was read from the text, it does not go on behind the characters consumed. -/
def Stops (r : Reading) (t : Text) : Prop :=
  ∀ k, r.outcome = .ok k → ∀ c ∈ (t.drop r.lexeme.length).head?, k.StopsBefore c

theorem stops_refuse (fault : ScanFault) (t : Text) : (refuse fault).Stops t := by
  rintro k ⟨⟩

theorem stops_token {kind : TokenKind} {value lexeme t : Text}
    (h : ∀ c ∈ (t.drop lexeme.length).head?, Token.StopsBefore ⟨kind, value⟩ c) :
    (token kind value lexeme).Stops t := by
  rintro _ ⟨rfl⟩
  exact h

theorem not_of_mem_head?_dropWhile {p : Char → Bool} {t : Text} {c : Char}
    (h : c ∈ (t.dropWhile p).head?) : p c = false := by
  have hhead := List.head?_dropWhile_not p t
  rw [Option.mem_def.mp h] at hhead
  simpa using hhead

/-- The character behind the longest front run of a class is not in the class. -/
theorem not_of_mem_head?_drop_takeWhile {p : Char → Bool} {t : Text} {c : Char}
    (h : c ∈ (t.drop (t.takeWhile p).length).head?) : p c = false := by
  rw [Text.drop_length_takeWhile] at h
  exact not_of_mem_head?_dropWhile h

theorem stops_blanks (t : Text) : (blanks t).Stops t := by
  refine stops_token fun c hc => ?_
  have hblank := not_of_mem_head?_drop_takeWhile hc
  show ¬ c.isWhitespace
  rw [hblank]
  exact Bool.false_ne_true

theorem stops_name (t : Text) : (name t).Stops t := by
  unfold name
  dsimp only
  split
  · exact stops_token fun _ _ => trivial
  · next hcolon =>
    refine stops_token fun c hc => ?_
    have hname := not_of_mem_head?_drop_takeWhile hc
    rw [Text.drop_length_takeWhile] at hc
    constructor
    · rintro rfl
      exact hcolon hc
    · rw [hname]
      exact Bool.false_ne_true

theorem stops_number (t : Text) : (number t).Stops t := by
  intro k h
  have hkind : k.kind = .number := by
    rcases number_cases t with ⟨literal, fault, -, hn⟩ | ⟨literal, v, -, -, hn⟩ |
      ⟨literal, e, -, -, hn⟩
    · simp [hn] at h
    · rw [hn] at h
      rw [← Except.ok.inj h]
    · simp [hn] at h
  intro c _
  unfold StopsBefore
  rw [hkind]
  trivial

theorem stops_single {c : Char} {t : Text} (h : ∀ d ∈ t.head?, d ∉ seconds c)
    (hminus : c = '-' → ∀ d ∈ t.head?, ¬ d.isDigit) : (special [c]).Stops (c :: t) := by
  refine stops_token fun d hd => ⟨?_, ?_⟩
  · exact fun hmem => h d hd (mem_seconds_of_mem_spellings hmem)
  · intro hc
    exact hminus (List.cons.inj hc).1 d hd

theorem stops_pair (c d : Char) (t : Text) : (special [c, d]).Stops t := by
  refine stops_token fun x _ => ⟨?_, ?_⟩
  · intro hmem
    have hlength : 3 ≤ 2 := length_of_mem_spellings hmem
    omega
  · intro heq
    simp at heq

theorem stops_oneOrTwo {c : Char} (hc : c ≠ '-') (t : Text) :
    (oneOrTwo c (seconds c) t).Stops (c :: t) := by
  unfold oneOrTwo
  split
  · next ht => exact stops_single (by simp [ht]) fun h => absurd h hc
  · next d ht =>
    split
    · exact stops_pair c d _
    · next hd =>
      refine stops_single (fun x hx => ?_) fun h => absurd h hc
      obtain rfl : d = x := Option.some.inj (ht.symm.trans hx)
      exact hd

theorem stops_two (c : Char) (ds : Text) (fault : ScanFault) (t u : Text) :
    (two c ds fault t).Stops u := by
  rcases two_eq c ds fault t with ⟨d, -, h⟩ | ⟨h, -⟩ <;> rw [h]
  · exact stops_pair c d u
  · exact stops_refuse fault u

theorem stops_notLast {c : Char} (hc : c ≠ '-') (fault : ScanFault) (t : Text) :
    (notLast c (seconds c) fault t).Stops (c :: t) := by
  unfold notLast
  split
  · exact stops_refuse fault _
  · exact stops_oneOrTwo hc t

theorem stops_blockArgument (t : Text) : (blockArgument t).Stops (':' :: t) := by
  unfold blockArgument
  split
  · exact stops_refuse _ _
  · split
    · refine stops_token fun c hc => ?_
      have hname : c.isAlphanum = false := not_of_mem_head?_drop_takeWhile (t := t) hc
      show ¬ c.isAlphanum
      rw [hname]
      exact Bool.false_ne_true
    · exact stops_refuse _ _

theorem stops_char (t u : Text) : (char t).Stops u := by
  unfold char
  split
  · exact stops_refuse _ _
  · exact stops_token fun _ _ => trivial

theorem stops_hash (t : Text) : (hash t).Stops ('#' :: t) := by
  unfold hash
  split
  · exact stops_refuse _ _
  · split
    · refine stops_token fun c hc => ?_
      have hblank : (!c.isWhitespace) = false := not_of_mem_head?_drop_takeWhile (t := t) hc
      show c.isWhitespace = true
      simpa using hblank
    · split
      · exact stops_pair _ _ _
      · exact stops_refuse _ _

/-- **No reading ends too early.** -/
theorem stops_ofText (c : Char) (t : Text) : (ofText c t).Stops (c :: t) := by
  induction c, t using ofText_cases with
  | blanks c t _ h => rw [h]; exact stops_blanks _
  | name c t _ h => rw [h]; exact stops_name _
  | number c t _ h => rw [h]; exact stops_number _
  | special c t hc h =>
    rw [h]
    rcases hc with hc | ⟨rfl, hdigit⟩
    · refine stops_single (by simp [seconds_of_isSingleSpecial hc]) fun hminus => ?_
      rw [hminus] at hc
      exact absurd hc (by decide)
    · refine stops_single (fun d _ => List.not_mem_nil) fun _ d hd hd' => hdigit ?_
      rw [Option.mem_def.mp hd]
      exact hd'
  | oneOrTwo c t hc h =>
    rw [h]
    rcases hc with rfl | rfl
    · exact stops_oneOrTwo (by decide) t
    · exact stops_oneOrTwo (by decide) t
  | two c ds fault t _ h => rw [h]; exact stops_two c ds fault t _
  | notLast c ds fault t hc h =>
    rw [h]
    rcases hc with ⟨rfl, rfl, -⟩ | ⟨rfl, rfl, -⟩
    · exact stops_notLast (c := '>') (by decide) fault t
    · exact stops_notLast (c := '<') (by decide) fault t
  | blockArgument t h => rw [h]; exact stops_blockArgument t
  | char t h => rw [h]; exact stops_char t _
  | hash t h => rw [h]; exact stops_hash t
  | comment t h => rw [h]; exact stops_token fun _ _ => trivial
  | string t h => rw [h]; exact stops_token fun _ _ => trivial
  | unknown c t h => rw [h]; exact stops_refuse _ _

end Reading

/-! ### Runs -/

namespace Lexer

variable {l l' : Lexer} {k : Token} {lexeme : Text} {placed : List PlacedToken} {stop : Nat}

/-- A token ends where what is left could not belong to it. -/
theorem Found.stopsBefore (h : l.Found k lexeme l') :
    ∀ c ∈ l'.cursor.rest.head?, k.StopsBefore c := by
  obtain ⟨c, t, hct, hr⟩ := h.reading
  have hstops := Reading.stops_ofText c t k (by rw [hr])
  rw [hr, ← hct, List.drop_left] at hstops
  exact hstops

/-- Behind a run of blanks no other is found. -/
theorem Found.not_blanks_pair {l'' : Lexer} {k' : Token} {lexeme' : Text}
    (h : l.Found k lexeme l') (h' : l'.Found k' lexeme' l'') :
    ¬ (k.kind = .whitespace ∧ k'.kind = .whitespace) := by
  rintro ⟨hk, hk'⟩
  obtain ⟨c, t, hct, hr⟩ := h'.reading
  have hblank : c.isWhitespace := Reading.isWhitespace_of_kind (by rw [hr]) hk'
  cases hkeep : l'.keepBlanks with
  | false =>
    rw [h'.isWhitespace_eq_false hkeep hct] at hblank
    cases hblank
  | true =>
    have hrest : l'.cursor.rest = c :: t := by
      rw [h'.split, skipped_of_keepBlanks hkeep, List.nil_append, hct]
    have hstops := h.stopsBefore c (by rw [hrest]; rfl)
    unfold Token.StopsBefore at hstops
    rw [hk] at hstops
    exact hstops hblank

/-- **Two runs of blanks never follow each other.** -/
theorem Run.isChain (h : l.Run placed stop) : (placed.map (·.token)).IsChain
    fun k k' => ¬ (k.kind = .whitespace ∧ k'.kind = .whitespace) := by
  induction h with
  | done => exact .nil
  | token _ hf hr ih =>
    cases hr with
    | done => exact .singleton _
    | token _ hf' _ => exact .cons_cons (hf.not_blanks_pair hf') ih

/-- Behind the place of a token stands nothing that could belong to it. -/
theorem Run.stopsBefore (h : l.Run placed stop) : ∀ p ∈ placed,
    ∀ c ∈ (l.cursor.source.fromByte p.stop).head?, p.token.StopsBefore c := by
  induction h with
  | done => simp
  | @token l l' k lexeme placed stop _ hf _ ih =>
    have hstops := hf.stopsBefore
    rw [l'.cursor.rest_eq, hf.source] at hstops
    rw [hf.source] at ih
    exact List.forall_mem_cons.mpr ⟨hstops, ih⟩

end Lexer

/-- **Every token of a scan has the shape of its kind and goes as far as that allows.** The places of
the tokens are where their source forms stand, the character behind such a place does not belong to
the token, and no two runs of blanks follow each other. -/
theorem scan_shapes {text : Text} {start : Nat} {keepBlanks : Bool} {result : Scan}
    (h : scan text start keepBlanks = .ok result) :
    ∃ placed, ((Lexer.ofOffset text start).withBlanks keepBlanks).placedTokens =
        .ok (placed, result.stop) ∧
      result.tokens = placed.map (·.token) ∧
      (∀ p ∈ placed, p.token.HasShape ∧
        (∃ w, text.slice? p.start p.stop = some w ∧
          p.token.WrittenAs w (p.stop = text.byteLength)) ∧
        ∀ c ∈ (text.fromByte p.stop).head?, p.token.StopsBefore c) ∧
      result.tokens.IsChain fun k k' => ¬ (k.kind = .whitespace ∧ k'.kind = .whitespace) := by
  obtain ⟨-, placed, hr, ht⟩ := scan_ok h
  refine ⟨placed, Lexer.placedTokens_eq_ok_iff.mpr hr, ht, fun p hp => ?_, ?_⟩
  · exact ⟨hr.hasShape _ (List.mem_map_of_mem hp), hr.slices p hp, hr.stopsBefore p hp⟩
  · rw [ht]
    exact hr.isChain

/-- From within a name on: the rest of the name, blanks, a minus sign, blanks and a symbol. -/
theorem scan_shapes_within_name :
    scan ('é' :: "ab - \t#a.b".toList) 3 true = .ok ⟨[⟨.identifier, ['b']⟩, ⟨.whitespace, [' ']⟩,
      ⟨.special, ['-']⟩, ⟨.whitespace, [' ', '\t']⟩, ⟨.symbol, "a.b".toList⟩], 12⟩ ∧
    ∃ placed, ((Lexer.ofOffset ('é' :: "ab - \t#a.b".toList) 3).withBlanks true).placedTokens =
        .ok (placed, 12) ∧
      (∀ p ∈ placed, p.token.HasShape ∧
        ∀ c ∈ (Text.fromByte ('é' :: "ab - \t#a.b".toList) p.stop).head?,
          p.token.StopsBefore c) ∧
      (placed.map (·.token)).IsChain
        fun k k' => ¬ (k.kind = .whitespace ∧ k'.kind = .whitespace) := by
  have hleft : Text.fromByte ('é' :: "ab - \t#a.b".toList) 3 = "b - \t#a.b".toList := by
    decide +kernel
  have htokens : Text.readTokens true (Text.fromByte ('é' :: "ab - \t#a.b".toList) 3) =
      .ok [⟨.identifier, ['b']⟩, ⟨.whitespace, [' ']⟩, ⟨.special, ['-']⟩,
        ⟨.whitespace, [' ', '\t']⟩, ⟨.symbol, "a.b".toList⟩] := by
    rw [hleft]
    exact Text.readTokens_cons rfl rfl rfl (Text.readTokens_cons rfl rfl rfl
      (Text.readTokens_cons rfl rfl rfl (Text.readTokens_cons rfl rfl rfl
        (Text.readTokens_cons rfl rfl rfl (Text.readTokens_of_nil rfl)))))
  have h : scan ('é' :: "ab - \t#a.b".toList) 3 true = .ok ⟨[⟨.identifier, ['b']⟩,
      ⟨.whitespace, [' ']⟩, ⟨.special, ['-']⟩, ⟨.whitespace, [' ', '\t']⟩,
      ⟨.symbol, "a.b".toList⟩], 12⟩ := by
    rw [scan_of_readTokens (by decide +kernel) htokens, hleft]
    rfl
  obtain ⟨placed, hplaced, hmap, hall, hchain⟩ := scan_shapes h
  rw [hmap] at hchain
  exact ⟨h, placed, hplaced, fun p hp => ⟨(hall p hp).1, (hall p hp).2.2⟩, hchain⟩

end Smalltalk
