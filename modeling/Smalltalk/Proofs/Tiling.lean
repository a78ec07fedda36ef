import Smalltalk.Proofs.Resumption
import Smalltalk.Proofs.Spelling

/-! # The tokens of a scan tile the text

If runs of blanks are kept, the places of the tokens cover the text from the start of the scan to
its end, without gap and without overlap, and the characters of each place are the source form of
the token found there: nothing of the text is lost.

* `Tiles`: the tokens cover the text from an offset on.
* `Lexer.Run.tiles`: every run of the lexer from a character boundary is such a cover.
* `scan_lossless`: hence every scan that keeps blanks. -/

namespace Smalltalk

/-! ### Slices -/

namespace Text

theorem takeBytes?_append (s t : Text) : (s ++ t).takeBytes? s.byteLength = some s := by
  induction s with
  | nil => unfold takeBytes?; rfl
  | cons c s ih =>
    have hc := Char.utf8Size_pos c
    rw [List.cons_append, byteLength_cons, takeBytes?, if_neg (by omega)]
    simp only [Nat.le_add_right, if_true, Nat.add_sub_cancel_left, ih, Option.map_some]

theorem slice?_append (front w rest : Text) :
    (front ++ (w ++ rest)).slice? front.byteLength (front.byteLength + w.byteLength) = some w := by
  have hdrop : (front ++ (w ++ rest)).dropBytes? front.byteLength = some (w ++ rest) :=
    dropBytes?_eq_some_iff.mpr ⟨front, rfl, rfl⟩
  rw [slice?, if_pos (Nat.le_add_right ..), hdrop, Option.bind_some, Nat.add_sub_cancel_left]
  exact takeBytes?_append w rest

theorem takeBytes?_isPrefix {t w : Text} {n : Nat} (h : t.takeBytes? n = some w) : w <+: t := by
  induction t generalizing n w with
  | nil =>
    rw [takeBytes?] at h
    split at h
    · obtain rfl := Option.some.inj h
      exact List.nil_prefix
    · cases h
  | cons c t ih =>
    by_cases hn : n = 0
    · rw [takeBytes?, if_pos hn] at h
      obtain rfl := Option.some.inj h
      exact List.nil_prefix
    · rw [takeBytes?, if_neg hn] at h
      split at h
      · obtain ⟨v, hv, rfl⟩ := Option.map_eq_some_iff.mp h
        exact (List.prefix_cons_inj c).mpr (ih hv)
      · cases h

/-- A slice is a part of the text behind as many bytes as its start says. -/
theorem byteLength_of_takeBytes? {t w : Text} {n : Nat} (h : t.takeBytes? n = some w) :
    w.byteLength = n := by
  induction t generalizing n w with
  | nil =>
    rw [takeBytes?] at h
    split at h
    · next hn =>
      obtain rfl := Option.some.inj h
      rw [hn, byteLength_nil]
    · cases h
  | cons c t ih =>
    by_cases hn : n = 0
    · rw [takeBytes?, if_pos hn] at h
      obtain rfl := Option.some.inj h
      rw [hn, byteLength_nil]
    · rw [takeBytes?, if_neg hn] at h
      split at h
      · obtain ⟨v, hv, rfl⟩ := Option.map_eq_some_iff.mp h
        rw [byteLength_cons, ih hv]
        omega
      · cases h

theorem slice?_eq_some {t w : Text} {start stop : Nat} (h : t.slice? start stop = some w) :
    ∃ front back, t = front ++ (w ++ back) ∧ front.byteLength = start := by
  unfold slice? at h
  split at h
  · obtain ⟨r, hr, hw⟩ := Option.bind_eq_some_iff.mp h
    obtain ⟨front, rfl, hfront⟩ := dropBytes?_eq_some_iff.mp hr
    obtain ⟨back, rfl⟩ := takeBytes?_isPrefix hw
    exact ⟨front, back, rfl, hfront⟩
  · cases h

end Text

/-- **The tokens cover the text from `start` to its end,** each of them standing where the one
before it stops and written as the slice of its place. -/
def Tiles (text : Text) (start : Nat) : List PlacedToken → Prop
  | [] => start = text.byteLength
  | p :: ps =>
    p.start = start ∧ p.start < p.stop ∧ text.IsBoundary p.start ∧ text.IsBoundary p.stop ∧
      (∃ w, text.slice? p.start p.stop = some w ∧ p.token.WrittenAs w (ps = [])) ∧
      Tiles text p.stop ps

namespace Lexer

/-! ### One token -/

theorem Found.byteLength_pos {l l' : Lexer} {token : Token} {lexeme : Text}
    (h : l.Found token lexeme l') : 0 < lexeme.byteLength := by
  obtain ⟨c, cs, rfl⟩ := List.exists_cons_of_ne_nil h.nonempty
  have hc := Char.utf8Size_pos c
  rw [Text.byteLength_cons]
  omega

theorem Found.slice {l l' : Lexer} {token : Token} {lexeme : Text} (h : l.Found token lexeme l')
    (hl : l.cursor.OnBoundary) :
    l.cursor.source.IsBoundary l'.tokenStart ∧
      l.cursor.source.slice? l'.tokenStart l'.position = some lexeme := by
  obtain ⟨front, hs, hp⟩ := Cursor.onBoundary_iff.mp hl
  have hfront : (front ++ l.skipped).byteLength = l'.tokenStart := by
    rw [Text.byteLength_append, hp]
    exact h.tokenStart.symm
  have hsource : l.cursor.source = front ++ l.skipped ++ (lexeme ++ l'.cursor.rest) := by
    rw [hs, h.split, List.append_assoc]
  rw [hsource, h.position, ← hfront]
  refine ⟨?_, Text.slice?_append ..⟩
  exact Option.isSome_iff_exists.mpr ⟨_, Text.dropBytes?_eq_some_iff.mpr ⟨_, rfl, rfl⟩⟩

/-- The characters of a token are its source form; if they are all that is left, the run is over. -/
theorem Found.writtenAs {l l' : Lexer} {token : Token} {lexeme : Text}
    (h : l.Found token lexeme l') : token.WrittenAs lexeme (l'.cursor.rest = []) := by
  obtain ⟨c, t, hct, hr⟩ := h.reading
  have hw := Reading.written_ofText c t token (by rw [hr])
  rw [hr] at hw
  refine hw.imp fun hend => ?_
  rw [← hct] at hend
  exact List.self_eq_append_right.mp hend

theorem Found.hasShape {l l' : Lexer} {k : Token} {lexeme : Text} (h : l.Found k lexeme l') :
    k.HasShape := by
  obtain ⟨c, t, -, hr⟩ := h.reading
  exact Reading.shaped_ofText c t k (by rw [hr])

/-! ### All tokens -/

theorem Run.hasShape {l : Lexer} {placed : List PlacedToken} {stop : Nat} (h : l.Run placed stop) :
    ∀ k ∈ placed.map (·.token), k.HasShape := by
  induction h with
  | done => simp
  | token _ hf _ ih =>
    rw [List.map_cons, List.forall_mem_cons]
    exact ⟨hf.hasShape, ih⟩

/-- Every token is written as the slice of its place. -/
theorem Run.slices {l : Lexer} {placed : List PlacedToken} {stop : Nat} (h : l.Run placed stop) :
    ∀ p ∈ placed, ∃ w, l.cursor.source.slice? p.start p.stop = some w ∧
      p.token.WrittenAs w (p.stop = l.cursor.source.byteLength) := by
  induction h with
  | done => simp
  | @token l l' k lexeme placed stop _ hf _ ih =>
    have hne : l.cursor.rest ≠ [] := by
      rw [hf.split]
      simp [hf.nonempty]
    obtain ⟨-, hslice⟩ := hf.slice (Cursor.onBoundary_of_rest_ne_nil hne)
    have hend : l'.cursor.rest = [] → l'.position = l'.cursor.source.byteLength := by
      intro hrest
      have hposition := hf.onBoundary.position_add
      rwa [hrest, Text.byteLength_nil, Nat.add_zero] at hposition
    rw [hf.source] at ih hend
    exact List.forall_mem_cons.mpr ⟨⟨lexeme, hslice, hf.writtenAs.imp hend⟩, ih⟩

/-- **A run that keeps blanks tiles the text from where it starts.** -/
theorem Run.tiles {l : Lexer} {placed : List PlacedToken} {stop : Nat} (h : l.Run placed stop)
    (hl : l.cursor.OnBoundary) (hk : l.keepBlanks = true) :
    Tiles l.cursor.source l.position placed := by
  induction h with
  | done hn =>
    have hstop := (Run.done hn).stop_eq
    obtain ⟨-, hpos⟩ := nextToken_none hn
    rw [skipped_of_keepBlanks hk] at hpos
    exact hpos.symm.trans (hstop.trans hl.position_add)
  | @token l l' k lexeme placed stop hn hf hr ih =>
    have htiles := ih hf.onBoundary (hf.keepBlanks.trans hk)
    have hstart := hf.tokenStart
    have hpos := hf.position
    have hlen := hf.byteLength_pos
    have hlt : l'.tokenStart < l'.position := by omega
    obtain ⟨hb, hslice⟩ := hf.slice hl
    have hb' := hf.onBoundary.isBoundary
    rw [hf.source] at htiles hb'
    rw [skipped_of_keepBlanks hk] at hstart
    exact ⟨hstart, hlt, hb, hb', ⟨lexeme, hslice, hf.writtenAs.imp hr.eq_nil⟩, htiles⟩

end Lexer

/-! ### Scans -/

/-- **Nothing is lost.** A scan that keeps blanks and starts on a character boundary stops at the
end of the text, and its tokens tile the text from the start of the scan on. -/
theorem scan_lossless {text : Text} {start : Nat} {result : Scan} (hstart : text.IsBoundary start)
    (h : scan text start true = .ok result) :
    ∃ placed, ((Lexer.ofOffset text start).withBlanks true).placedTokens =
        .ok (placed, result.stop) ∧
      result.tokens = placed.map (·.token) ∧ result.stop = text.byteLength ∧
      Tiles text start placed := by
  obtain ⟨-, placed, hr, ht⟩ := scan_ok h
  have hb : ((Lexer.ofOffset text start).withBlanks true).cursor.OnBoundary :=
    Cursor.onBoundary_ofOffset hstart
  refine ⟨placed, Lexer.placedTokens_eq_ok_iff.mpr hr, ht, ?_, hr.tiles hb rfl⟩
  rw [hr.stop_eq]
  exact hb.position_add

theorem scan_lossless_open_comment :
    ∃ placed, ((Lexer.ofOffset ('é' :: " `a``b` \"c".toList) 2).withBlanks true).placedTokens =
        .ok (placed, 12) ∧
      [⟨.whitespace, [' ']⟩, ⟨.string, "a`b".toList⟩, ⟨.whitespace, [' ']⟩, ⟨.comment, ['c']⟩] =
        placed.map (·.token) ∧
      12 = Text.byteLength ('é' :: " `a``b` \"c".toList) ∧
      Tiles ('é' :: " `a``b` \"c".toList) 2 placed := by
  have h : scan ('é' :: " `a``b` \"c".toList) 2 true = .ok ⟨[⟨.whitespace, [' ']⟩,
      ⟨.string, "a`b".toList⟩, ⟨.whitespace, [' ']⟩, ⟨.comment, ['c']⟩], 12⟩ :=
    scan_of_readTokens (Or.inr rfl) (Text.readTokens_cons rfl rfl rfl
      (Text.readTokens_cons rfl rfl rfl (Text.readTokens_cons rfl rfl rfl
        (Text.readTokens_cons rfl rfl rfl (Text.readTokens_of_nil rfl)))))
  exact scan_lossless (by decide) h

end Smalltalk
