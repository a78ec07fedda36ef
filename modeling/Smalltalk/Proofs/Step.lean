import Smalltalk.Scan

/-! # One step of the lexer, and a whole run

A step passes over the blanks `Lexer.skipped`, reads one token from the characters behind them and
leaves the lexer after these characters. A run is a sequence of steps, so a fact about runs is
proved from what a step can do.

* `Cursor.OnBoundary`: the offset of the cursor is a character boundary of its text. Every move
  keeps this, and it holds wherever something is left to read.
* `Lexer.nextToken_cases`: the three outcomes of a step. `Lexer.Found` is all that a step with a
  token does.
* `Lexer.Run`: a run that succeeds, token by token. `Lexer.Run.stop_eq`: it stops behind everything
  that was left. -/

namespace Smalltalk

namespace Text

theorem isBoundary_zero (t : Text) : t.IsBoundary 0 :=
  Option.isSome_iff_exists.mpr ⟨t, t.dropBytes?_zero⟩

theorem fromByte_zero (t : Text) : t.fromByte 0 = t := by
  rw [fromByte, dropBytes?_zero, Option.getD_some]

end Text

/-! ### Cursors on a character boundary -/

namespace Cursor

/-- The offset is a character boundary of the text. -/
def OnBoundary (c : Cursor) : Prop := c.source.dropBytes? c.position = some c.rest

theorem onBoundary_ofOffset {text : Text} {start : Nat} (h : text.IsBoundary start) :
    (ofOffset text start).OnBoundary := by
  obtain ⟨r, hr⟩ := Option.isSome_iff_exists.mp h
  simp [OnBoundary, ofOffset, Text.fromByte, hr]

theorem onBoundary_of_rest_ne_nil {c : Cursor} (h : c.rest ≠ []) : c.OnBoundary := by
  have hr := c.rest_eq
  unfold Text.fromByte at hr
  unfold OnBoundary
  rcases hd : c.source.dropBytes? c.position with _ | r <;> rw [hd] at hr
  · exact absurd hr h
  · rw [hr, Option.getD_some]

theorem onBoundary_iff {c : Cursor} :
    c.OnBoundary ↔ ∃ front, c.source = front ++ c.rest ∧ front.byteLength = c.position :=
  Text.dropBytes?_eq_some_iff

theorem OnBoundary.isBoundary {c : Cursor} (h : c.OnBoundary) : c.source.IsBoundary c.position := by
  unfold Text.IsBoundary; rw [h]; rfl

theorem OnBoundary.position_add {c : Cursor} (h : c.OnBoundary) :
    c.position + c.rest.byteLength = c.source.byteLength := by
  obtain ⟨front, hs, hp⟩ := onBoundary_iff.mp h
  rw [hs, Text.byteLength_append, hp]

theorem position_advanceWhile (c : Cursor) (p : Char → Bool) :
    (c.advanceWhile p).position = c.position + Text.byteLength (c.rest.takeWhile p) := by
  rw [advanceWhile, position_advanceBy,
    ← List.prefix_iff_eq_take.mp (List.takeWhile_prefix p)]

end Cursor

/-! ### Blanks that are passed over -/

namespace Text

/-- The blanks passed over at the front of a text. -/
def skippedBlanks (keepBlanks : Bool) (t : Text) : Text :=
  if keepBlanks then [] else t.takeWhile Char.isWhitespace

/-- The text behind the blanks that are passed over. -/
def dropBlanks (keepBlanks : Bool) (t : Text) : Text :=
  if keepBlanks then t else t.dropWhile Char.isWhitespace

theorem skippedBlanks_append_dropBlanks (keepBlanks : Bool) (t : Text) :
    skippedBlanks keepBlanks t ++ dropBlanks keepBlanks t = t := by
  unfold skippedBlanks dropBlanks
  split
  · rfl
  · exact List.takeWhile_append_dropWhile

end Text

namespace Lexer

/-- The blanks in front of the next token. -/
def skipped (l : Lexer) : Text := l.cursor.rest.skippedBlanks l.keepBlanks

theorem rest_tokenCursor (l : Lexer) :
    l.tokenCursor.rest = l.cursor.rest.dropBlanks l.keepBlanks := by
  unfold tokenCursor Text.dropBlanks
  split
  · rfl
  · exact Cursor.rest_advanceWhile ..

theorem skipped_append_rest (l : Lexer) : l.skipped ++ l.tokenCursor.rest = l.cursor.rest := by
  rw [rest_tokenCursor]
  exact Text.skippedBlanks_append_dropBlanks ..

theorem position_tokenCursor (l : Lexer) :
    l.tokenCursor.position = l.position + l.skipped.byteLength := by
  unfold skipped tokenCursor position Text.skippedBlanks
  split
  · rfl
  · rw [Cursor.position_advanceWhile]

theorem source_tokenCursor (l : Lexer) : l.tokenCursor.source = l.cursor.source := by
  unfold tokenCursor
  split
  · rfl
  · exact Cursor.source_advanceBy ..

theorem skipped_of_keepBlanks {l : Lexer} (h : l.keepBlanks = true) : l.skipped = [] := by
  rw [skipped, Text.skippedBlanks, if_pos h]

/-! ### The three outcomes of a step -/

/-- The lexer after reading `n` characters behind the blanks it skips. -/
def moved (l : Lexer) (n : Nat) : Lexer :=
  { l with cursor := l.tokenCursor.advanceBy n, tokenStart := l.tokenCursor.position }

/-- **A step** finds the end of the text, a token or an error behind the blanks it skips, and moves
past what the rule consumed. -/
theorem nextToken_cases (l : Lexer) :
    (l.tokenCursor.rest = [] ∧ l.nextToken = (.ok none, l.moved 0)) ∨
    ∃ c t, l.tokenCursor.rest = c :: t ∧
      ((∃ k, (Reading.ofText c t).outcome = .ok k ∧
        l.nextToken = (.ok (some k), l.moved (Reading.ofText c t).lexeme.length)) ∨
      ∃ e, (Reading.ofText c t).outcome = .error e ∧
        l.nextToken = (.error (e.shift l.tokenCursor.position),
          l.moved (Reading.ofText c t).lexeme.length)) := by
  unfold nextToken moved
  rcases hr : l.tokenCursor.rest with _ | ⟨c, t⟩
  · exact Or.inl ⟨rfl, by simp only [hr]; rfl⟩
  · refine Or.inr ⟨c, t, rfl, ?_⟩
    rcases ho : (Reading.ofText c t).outcome with e | k
    · exact Or.inr ⟨e, rfl, by simp only [hr, ho]⟩
    · exact Or.inl ⟨k, rfl, by simp only [hr, ho]⟩

/-- `token` was read from the characters `lexeme` by a step from `l` to `l'`. -/
structure Found (l : Lexer) (token : Token) (lexeme : Text) (l' : Lexer) : Prop where
  split : l.cursor.rest = l.skipped ++ (lexeme ++ l'.cursor.rest)
  reading : ∃ c t, lexeme ++ l'.cursor.rest = c :: t ∧ Reading.ofText c t = ⟨.ok token, lexeme⟩
  nonempty : lexeme ≠ []
  tokenStart : l'.tokenStart = l.position + l.skipped.byteLength
  position : l'.position = l'.tokenStart + lexeme.byteLength
  source : l'.cursor.source = l.cursor.source
  keepBlanks : l'.keepBlanks = l.keepBlanks

theorem found_moved {l : Lexer} {c : Char} {t : Text} {k : Token}
    (hr : l.tokenCursor.rest = c :: t) (ho : (Reading.ofText c t).outcome = .ok k) :
    l.Found k (Reading.ofText c t).lexeme (l.moved (Reading.ofText c t).lexeme.length) := by
  have hpre := Reading.lexeme_isPrefix c t
  have hrest : (Reading.ofText c t).lexeme ++
      (l.moved (Reading.ofText c t).lexeme.length).cursor.rest = c :: t := by
    change _ ++ (l.tokenCursor.advanceBy _).rest = _
    rw [Cursor.rest_advanceBy, hr, List.prefix_iff_eq_append.mp hpre]
  refine ⟨?_, ⟨c, t, hrest, by rw [← ho]⟩, Reading.lexeme_ne_nil ho, position_tokenCursor l, ?_, ?_,
    rfl⟩
  · rw [hrest, ← hr, skipped_append_rest]
  · change (l.tokenCursor.advanceBy _).position = _
    rw [Cursor.position_advanceBy, hr, ← List.prefix_iff_eq_take.mp hpre]
    rfl
  · exact (Cursor.source_advanceBy ..).trans (source_tokenCursor l)

theorem nextToken_token {l l' : Lexer} {k : Token} (h : l.nextToken = (.ok (some k), l')) :
    ∃ lexeme, l.Found k lexeme l' := by
  rcases nextToken_cases l with ⟨-, hn⟩ | ⟨c, t, hr, ⟨k', ho, hn⟩ | ⟨e, -, hn⟩⟩
  · simp [hn] at h
  · rw [hn] at h
    simp only [Prod.mk.injEq, Except.ok.injEq, Option.some.injEq] at h
    obtain ⟨rfl, rfl⟩ := h
    exact ⟨_, found_moved hr ho⟩
  · simp [hn] at h

theorem nextToken_none {l l' : Lexer} (h : l.nextToken = (.ok none, l')) :
    l.tokenCursor.rest = [] ∧ l'.position = l.position + l.skipped.byteLength := by
  rcases nextToken_cases l with ⟨hr, hn⟩ | ⟨c, t, hr, ⟨k, -, hn⟩ | ⟨e, -, hn⟩⟩
  · rw [hn] at h
    simp only [Prod.mk.injEq, true_and] at h
    rw [← h]
    exact ⟨hr, position_tokenCursor l⟩
  · simp [hn] at h
  · simp [hn] at h

theorem nextToken_of_rest_nil {l : Lexer} (h : l.cursor.rest = []) :
    l.nextToken = (.ok none, l.moved 0) := by
  have hsplit := skipped_append_rest l
  rw [h, List.append_eq_nil_iff] at hsplit
  rcases nextToken_cases l with ⟨-, hn⟩ | ⟨c, t, hr, -⟩
  · exact hn
  · simp [hsplit.2] at hr

theorem nextToken_error {l l' : Lexer} {e : ScanError} (h : l.nextToken = (.error e, l')) :
    ∃ c t fault, l.tokenCursor.rest = c :: t ∧ (Reading.ofText c t).outcome = .error fault ∧
      e = fault.shift l.tokenCursor.position := by
  rcases nextToken_cases l with ⟨-, hn⟩ | ⟨c, t, hr, ⟨k, -, hn⟩ | ⟨fault, ho, hn⟩⟩
  · simp [hn] at h
  · simp [hn] at h
  · rw [hn] at h
    simp only [Prod.mk.injEq, Except.error.injEq] at h
    exact ⟨c, t, fault, hr, ho, h.1.symm⟩

theorem Found.dropBlanks {l l' : Lexer} {token : Token} {lexeme : Text}
    (h : l.Found token lexeme l') :
    l.cursor.rest.dropBlanks l.keepBlanks = lexeme ++ l'.cursor.rest := by
  have hsplit := h.split
  rw [← skipped_append_rest, rest_tokenCursor] at hsplit
  exact List.append_cancel_left hsplit

theorem Found.onBoundary {l l' : Lexer} {token : Token} {lexeme : Text}
    (h : l.Found token lexeme l') : l'.cursor.OnBoundary := by
  have hne : l.cursor.rest ≠ [] := by
    rw [h.split]
    simp [h.nonempty]
  obtain ⟨front, hs, hp⟩ := Cursor.onBoundary_iff.mp (Cursor.onBoundary_of_rest_ne_nil hne)
  refine Cursor.onBoundary_iff.mpr ⟨front ++ l.skipped ++ lexeme, ?_, ?_⟩
  · rw [h.source, hs, h.split]
    simp
  · have hpos := h.position
    have hstart := h.tokenStart
    unfold Lexer.position at hpos hstart
    rw [Text.byteLength_append, Text.byteLength_append, hp]
    omega

/-! ### A run as a sequence of steps -/

theorem placedTokens_of_error {l l' : Lexer} {e : ScanError} (h : l.nextToken = (.error e, l')) :
    l.placedTokens = .error e := by
  rw [placedTokens]; split <;> simp_all

theorem placedTokens_of_none {l l' : Lexer} (h : l.nextToken = (.ok none, l')) :
    l.placedTokens = .ok ([], l'.position) := by
  rw [placedTokens]; split <;> simp_all

theorem placedTokens_of_token {l l' : Lexer} {token : Token}
    (h : l.nextToken = (.ok (some token), l')) :
    l.placedTokens = l'.placedTokens.map fun (tokens, stop) =>
      (⟨token, l'.tokenStart, l'.position⟩ :: tokens, stop) := by
  rw [placedTokens]; split <;> simp_all

/-- The tokens that the lexer `l` finds with their places, and the offset where it stops. -/
inductive Run : Lexer → List PlacedToken → Nat → Prop
  | done {l l' : Lexer} (hn : l.nextToken = (.ok none, l')) : Run l [] l'.position
  | token {l l' : Lexer} {k : Token} {lexeme : Text} {placed : List PlacedToken} {stop : Nat}
    (hn : l.nextToken = (.ok (some k), l')) (hf : l.Found k lexeme l') (hr : Run l' placed stop) :
    Run l (⟨k, l'.tokenStart, l'.position⟩ :: placed) stop

theorem run_of_placedTokens {l : Lexer} {placed : List PlacedToken} {stop : Nat}
    (h : l.placedTokens = .ok (placed, stop)) : l.Run placed stop := by
  induction l using placedTokens.induct generalizing placed with
  | case1 l e l' hn => simp [placedTokens_of_error hn] at h
  | case2 l l' hn =>
    simp only [placedTokens_of_none hn, Except.ok.injEq, Prod.mk.injEq] at h
    obtain ⟨rfl, rfl⟩ := h
    exact .done hn
  | case3 l k l' hn _ ih =>
    obtain ⟨lexeme, hf⟩ := nextToken_token hn
    rw [placedTokens_of_token hn] at h
    rcases hp : l'.placedTokens with e | ⟨placed', stop'⟩
    · simp [hp, Except.map] at h
    · simp only [hp, Except.map, Except.ok.injEq, Prod.mk.injEq] at h
      obtain ⟨rfl, rfl⟩ := h
      exact .token hn hf (ih hp)

/-- **The runs of a lexer are what it places.** -/
theorem placedTokens_eq_ok_iff {l : Lexer} {placed : List PlacedToken} {stop : Nat} :
    l.placedTokens = .ok (placed, stop) ↔ l.Run placed stop := by
  refine ⟨run_of_placedTokens, fun h => ?_⟩
  induction h with
  | done hn => exact placedTokens_of_none hn
  | token hn _ _ ih => rw [placedTokens_of_token hn, ih]; rfl

/-- **The error of a run is the error of one reading,** at the place where the reading starts. -/
theorem exists_reading_of_error {l : Lexer} {e : ScanError} (h : l.placedTokens = .error e) :
    ∃ (front : Text) (c : Char) (t : Text) (e' : ScanError),
      l.cursor.source = front ++ c :: t ∧ l.position ≤ front.byteLength ∧
      (Reading.ofText c t).outcome = .error e' ∧ e = e'.shift front.byteLength := by
  induction l using placedTokens.induct with
  | case1 l e' l' hn =>
    rw [placedTokens_of_error hn] at h
    obtain rfl := Except.error.inj h
    obtain ⟨c, t, fault, hr, ho, rfl⟩ := nextToken_error hn
    have hb : l.tokenCursor.OnBoundary := Cursor.onBoundary_of_rest_ne_nil (by rw [hr]; simp)
    obtain ⟨front, hs, hp⟩ := Cursor.onBoundary_iff.mp hb
    have hpos := position_tokenCursor l
    rw [hr, source_tokenCursor] at hs
    exact ⟨front, c, t, fault, hs, by omega, ho, by rw [hp]⟩
  | case2 l l' hn => simp [placedTokens_of_none hn] at h
  | case3 l k l' hn _ ih =>
    obtain ⟨lexeme, hf⟩ := nextToken_token hn
    rw [placedTokens_of_token hn] at h
    rcases hp : l'.placedTokens with e' | run <;> rw [hp] at h
    · obtain rfl : e' = e := Except.error.inj h
      obtain ⟨front, c, t, e'', hs, hle, ho, he⟩ := ih hp
      have hstart := hf.tokenStart
      have hpos := hf.position
      rw [hf.source] at hs
      exact ⟨front, c, t, e'', hs, by omega, ho, he⟩
    · cases h

/-- **A run stops behind everything that was left.** -/
theorem Run.stop_eq {l : Lexer} {placed : List PlacedToken} {stop : Nat}
    (h : l.Run placed stop) : stop = l.position + l.cursor.rest.byteLength := by
  induction h with
  | @done l l' hn =>
    obtain ⟨hend, hpos⟩ := nextToken_none hn
    have hrest := skipped_append_rest l
    rw [hend, List.append_nil] at hrest
    rw [hpos, hrest]
  | token _ hf _ ih =>
    have hpos := hf.position
    have hstart := hf.tokenStart
    rw [hf.split, Text.byteLength_append, Text.byteLength_append]
    omega

theorem Run.eq_nil {l : Lexer} {placed : List PlacedToken} {stop : Nat} (h : l.Run placed stop)
    (hr : l.cursor.rest = []) : placed = [] := by
  rcases h with _ | ⟨hn, -, -⟩
  · rfl
  · simp [nextToken_of_rest_nil hr] at hn

end Lexer

/-! ### Scans -/

theorem scan_ok {text : Text} {start : Nat} {keepBlanks : Bool} {result : Scan}
    (h : scan text start keepBlanks = .ok result) :
    text.CanStart start ∧ ∃ placed,
      ((Lexer.ofOffset text start).withBlanks keepBlanks).Run placed result.stop ∧
        result.tokens = placed.map (·.token) := by
  unfold scan at h
  by_cases hs : text.CanStart start
  · rw [if_pos hs] at h
    rcases hp : ((Lexer.ofOffset text start).withBlanks keepBlanks).placedTokens with
      e | ⟨placed, stop⟩
    · simp [hp, Except.map] at h
    · simp only [hp, Except.map, Except.ok.injEq] at h
      rw [← h]
      exact ⟨hs, placed, Lexer.run_of_placedTokens hp, rfl⟩
  · simp [hs] at h

theorem Text.IsBoundary.canStart {text : Text} {start : Nat} (h : text.IsBoundary start) :
    text.CanStart start :=
  Or.inr h

theorem scan_error {text : Text} {start : Nat} {keepBlanks : Bool} {e : ScanError}
    (hs : text.CanStart start) (h : scan text start keepBlanks = .error e) :
    ((Lexer.ofOffset text start).withBlanks keepBlanks).placedTokens = .error e := by
  unfold scan at h
  rw [if_pos hs] at h
  rcases hp : ((Lexer.ofOffset text start).withBlanks keepBlanks).placedTokens with e' | run
  · simpa [hp, Except.map] using h
  · simp [hp, Except.map] at h

end Smalltalk
