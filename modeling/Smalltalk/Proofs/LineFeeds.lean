import Smalltalk.Proofs.CommentsApart
import Smalltalk.Proofs.Rendering
import Smalltalk.Proofs.Reports

/-! # Line feeds are kept

Rendering rewrites numbers, escapes strings, quotes symbols and marks every line of a comment, but
all of this leaves line feeds where they are. Both halves of the way are counted apart: a token has
as many line feeds as the characters it was read from, and its script has as many as the token.

* `Lexer.Found.count_lexeme`: reading a token keeps its line feeds.
* `Script.count_ofToken`: so does rendering it.
* `Lexer.Run.exists_after`: hence all that a run renders up to some token has the line feeds of all
  that it has read by then.
* `render_line_feeds`: so each token is rendered in the line in which it stands. -/

namespace Smalltalk

theorem Text.count_feed_eq_zero {t : Text} (h : ∀ c ∈ t, c ≠ '\n') : t.count '\n' = 0 :=
  List.count_eq_zero.mpr fun hmem => h '\n' hmem rfl

/-! ### Reading -/

namespace Reading

/-- The characters of a number are no blanks. -/
theorem isWhitespace_of_mem_number {t : Text} {c : Char} (h : c ∈ (number t).lexeme) :
    c.isWhitespace = false := by
  have hcapture : (number t).lexeme = (capture {} t).1 := by
    rcases number_cases t with ⟨literal, fault, hc, hn⟩ | ⟨literal, v, hc, -, hn⟩ |
      ⟨literal, e, hc, -, hn⟩ <;> rw [hn, hc]
    rfl
  rw [hcapture] at h
  exact isWhitespace_of_mem_capture h

end Reading

theorem Text.count_doubled (v : Text) : v.doubled.count '\n' = v.count '\n' := by
  induction v with
  | nil => rfl
  | cons c v ih =>
    by_cases hc : c = '\x60'
    · subst hc
      rw [Text.doubled_cons_backquote, List.count_cons_of_ne (by decide),
        List.count_cons_of_ne (by decide), List.count_cons_of_ne (by decide), ih]
    · rw [Text.doubled_cons hc, List.count_cons, List.count_cons, ih]

/-- The marks of a token are no line feeds. -/
theorem Token.count_source (k : Token) : k.source.count '\n' = k.value.count '\n' := by
  obtain ⟨kind, value⟩ := k
  cases kind with
  | string => simp [source, Text.count_doubled]
  | _ => simp [source]

theorem Double.count_toText (v : Double) : v.toText.count '\n' = 0 := by
  refine Text.count_feed_eq_zero fun c hc => ?_
  rintro rfl
  have hwritten := v.isWritten_toText _ hc
  unfold IsWritten at hwritten
  revert hwritten
  decide

namespace Lexer

/-- A number is written in one line. -/
theorem Found.feed_notMem_of_number {l l' : Lexer} {k : Token} {lexeme : Text}
    (h : l.Found k lexeme l') (hk : k.kind = .number) : '\n' ∉ lexeme := by
  obtain ⟨c, t, -, hr⟩ := h.reading
  have hnumber : Reading.ofText c t = Reading.number (c :: t) := by
    rcases Reading.plain_or_number c t with hplain | ⟨-, hnumber⟩
    · exact absurd hk (hplain.kind_ne_number (by rw [hr]))
    · exact hnumber
  have hlexeme : lexeme = (Reading.number (c :: t)).lexeme := by rw [← hnumber, hr]
  rw [hlexeme]
  intro hfeed
  exact absurd (Reading.isWhitespace_of_mem_number hfeed) (by decide)

/-- **Reading a token keeps its line feeds.** -/
theorem Found.count_lexeme {l l' : Lexer} {k : Token} {lexeme : Text} (h : l.Found k lexeme l') :
    lexeme.count '\n' = k.value.count '\n' := by
  have hwritten := h.writtenAs
  by_cases hk : k.kind = .number
  · obtain ⟨v, hv⟩ : ∃ v : Double, k.value = v.toText := by
      have hshape := h.hasShape
      unfold Token.HasShape at hshape
      rwa [hk] at hshape
    rw [hv, Double.count_toText]
    exact List.count_eq_zero.mpr (h.feed_notMem_of_number hk)
  · rw [← k.count_source]
    -- a closing mark that the end of the text leaves out is no line feed
    obtain ⟨kind, value⟩ := k
    cases kind with
    | number => exact absurd rfl hk
    | comment =>
      rcases hwritten with hw | ⟨-, hw⟩
      · rw [hw]
      · rw [← hw, List.count_append]
        rfl
    | string =>
      rcases hwritten with hw | ⟨-, hw⟩
      · rw [hw]
      · rw [← hw, List.count_append]
        rfl
    | _ => exact congrArg (List.count '\n') hwritten

end Lexer

/-! ### Rendering -/

namespace Script

theorem count_templateBody (v : Text) : (templateBody v).count '\n' = v.count '\n' := by
  induction v with
  | nil => rfl
  | cons c v ih =>
    rw [templateBody]
    split
    · rw [List.count_cons_of_ne (by decide), List.count_cons, List.count_cons, ih]
    · rw [List.count_cons, List.count_cons, ih]

theorem count_commentBody (v : Text) : (commentBody v).count '\n' = v.count '\n' := by
  induction v with
  | nil => rfl
  | cons c v ih =>
    by_cases hc : c = '\n'
    · subst hc
      have hmark : mark.count '\n' = 0 := by decide
      rw [commentBody_feed, List.count_cons_self, List.count_append, hmark, ih, Nat.zero_add,
        List.count_cons_self]
    · rw [commentBody_cons hc, List.count_cons_of_ne hc, List.count_cons_of_ne hc, ih]

/-- A JSON string has no line feed of its own. -/
theorem feed_notMem_jsonString (v : Text) : '\n' ∉ v.jsonString := fun hc =>
  absurd (Text.le_toNat_of_mem_jsonString hc) (by decide)

theorem count_templateLiteral (v : Text) : (templateLiteral v).count '\n' = v.count '\n' := by
  have hclose : List.count '\n' ['\x60'] = 0 := by decide
  rw [templateLiteral, List.count_append, List.count_cons_of_ne (by decide), count_templateBody,
    hclose, Nat.add_zero]

theorem count_symbol (v : Text) : (symbol v).count '\n' = 0 := by
  have hname : ∀ c ∈ "Symbol.for(".toList, c ≠ '\n' := Text.forall_of_all (by decide)
  refine Text.count_feed_eq_zero fun c hc => ?_
  unfold symbol at hc
  rw [List.mem_append, List.mem_append, List.mem_singleton] at hc
  rcases hc with (hc | hc) | rfl
  · exact hname c hc
  · exact ne_of_mem_of_not_mem hc (feed_notMem_jsonString v)
  · decide

theorem count_lineComments (v : Text) : (lineComments v).count '\n' = v.count '\n' := by
  have hmark : mark.count '\n' = 0 := by decide
  rw [lineComments_eq, List.count_append, hmark, count_commentBody, Nat.zero_add]

theorem count_operator? {v js : Text} (h : operator? v = some js) :
    js.count '\n' = v.count '\n' := by
  unfold operator? at h
  split at h
  all_goals cases h
  all_goals rfl

/-- **Rendering a token keeps its line feeds.** -/
theorem count_ofToken {k : Token} {js : Text} (hshape : k.HasShape) (h : ofToken k = .ok js) :
    js.count '\n' = k.value.count '\n' := by
  obtain ⟨kind, value⟩ := k
  cases kind with
  | number =>
    obtain rfl : value = js := Except.ok.inj h
    rfl
  | whitespace =>
    obtain rfl : value = js := Except.ok.inj h
    rfl
  | string =>
    obtain rfl : templateLiteral value = js := Except.ok.inj h
    exact count_templateLiteral value
  | symbol =>
    obtain rfl : symbol value = js := Except.ok.inj h
    have hfeed : '\n' ∉ value := fun hmem => hshape.2 '\n' hmem (by decide)
    rw [count_symbol]
    exact (List.count_eq_zero.mpr hfeed).symm
  | comment =>
    obtain rfl : lineComments value = js := Except.ok.inj h
    exact count_lineComments value
  | special =>
    rcases hop : operator? value with _ | js'
    · simp [ofToken, hop] at h
    · simp only [ofToken, hop, Except.ok.injEq] at h
      rw [← h]
      exact count_operator? hop
  | _ => cases h

end Script

/-! ### Runs -/

theorem renderPlaced_cons {p : PlacedToken} {ps : List PlacedToken} {js : Text}
    (h : renderPlaced (p :: ps) = .ok js) :
    ∃ s r, Script.ofToken p.token = .ok s ∧ renderPlaced ps = .ok r ∧ js = s ++ r := by
  rcases hs : Script.ofToken p.token with fault | s
  · simp [renderPlaced, hs] at h
  · rcases hr : renderPlaced ps with e | r
    · simp [renderPlaced, hs, hr, Except.map] at h
    · simp only [renderPlaced, hs, hr, Except.map, Except.ok.injEq] at h
      exact ⟨s, r, rfl, rfl, h.symm⟩

theorem renderPlaced_append {ps qs : List PlacedToken} {js : Text}
    (h : renderPlaced (ps ++ qs) = .ok js) :
    ∃ s r, renderPlaced ps = .ok s ∧ renderPlaced qs = .ok r ∧ js = s ++ r := by
  induction ps generalizing js with
  | nil => exact ⟨[], js, rfl, h, rfl⟩
  | cons p ps ih =>
    obtain ⟨s, r, hs, hr, rfl⟩ := renderPlaced_cons h
    obtain ⟨s', r', hs', hr', rfl⟩ := ih hr
    refine ⟨s ++ s', r', ?_, hr', by rw [List.append_assoc]⟩
    simp only [renderPlaced, hs, hs']
    rfl

namespace Lexer

variable {l : Lexer} {before after : List PlacedToken} {stop : Nat}

/-- **A run taken up behind some of its tokens.** The characters read by then have the line feeds of
the script of these tokens. -/
theorem Run.exists_after (h : l.Run (before ++ after) stop) (hk : l.keepBlanks = true) :
    ∃ (l' : Lexer) (passed : Text), l'.Run after stop ∧ l'.keepBlanks = true ∧
      l.cursor.rest = passed ++ l'.cursor.rest ∧ l'.position = l.position + passed.byteLength ∧
      ∀ js, renderPlaced before = .ok js → js.count '\n' = passed.count '\n' := by
  induction before generalizing l with
  | nil =>
    refine ⟨l, [], h, hk, rfl, rfl, fun js hjs => ?_⟩
    rw [← Except.ok.inj hjs]
  | cons p before ih =>
    rw [List.cons_append] at h
    cases h with
    | @token _ l₁ k lexeme _ _ hn hf hr =>
      obtain ⟨l', passed, hrun, hk', hrest, hpos, hcount⟩ := ih hr (hf.keepBlanks.trans hk)
      have hsplit := hf.split
      have hstart := hf.tokenStart
      have hposition := hf.position
      rw [skipped_of_keepBlanks hk] at hsplit hstart
      rw [Text.byteLength_nil] at hstart
      refine ⟨l', lexeme ++ passed, hrun, hk', ?_, ?_, fun js hjs => ?_⟩
      · rw [hsplit, hrest, List.nil_append, List.append_assoc]
      · rw [Text.byteLength_append]
        omega
      · obtain ⟨s, r, hs, hr, rfl⟩ := renderPlaced_cons hjs
        rw [List.count_append, List.count_append, hcount r hr, hf.count_lexeme,
          Script.count_ofToken hf.hasShape hs]

/-- A token of a run that keeps blanks starts where the lexer stands. -/
theorem Run.start_eq {p : PlacedToken} (h : l.Run (p :: after) stop) (hk : l.keepBlanks = true) :
    p.start = l.position := by
  cases h with
  | token _ hf _ =>
    have hstart := hf.tokenStart
    rw [skipped_of_keepBlanks hk] at hstart
    exact hstart

/-- A run that keeps blanks and finds nothing has nothing left to read. -/
theorem Run.rest_eq_nil (h : l.Run [] stop) (hk : l.keepBlanks = true) : l.cursor.rest = [] := by
  cases h with
  | done hn =>
    have hrest := l.skipped_append_rest
    rw [(nextToken_none hn).1, skipped_of_keepBlanks hk] at hrest
    exact hrest.symm

end Lexer

/-- **Rendering keeps line feeds.** A text that can be rendered is scanned with its blanks, and the
script is that of the tokens one after another. In front of the script of each token stand as many
line feeds as in front of the token in the text, and in the whole script as many as in the text. -/
theorem render_line_feeds {text js : Text} (h : render text = .ok js) :
    ∃ placed stop,
      ((Lexer.ofOffset text 0).withBlanks true).placedTokens = .ok (placed, stop) ∧
      scan text 0 true = .ok ⟨placed.map (·.token), stop⟩ ∧ Tiles text 0 placed ∧
      renderPlaced placed = .ok js ∧
      (∀ before p after, placed = before ++ p :: after →
        ∃ front jsBefore script jsAfter, text.takeBytes? p.start = some front ∧
          renderPlaced before = .ok jsBefore ∧ Script.ofToken p.token = .ok script ∧
          renderPlaced after = .ok jsAfter ∧ js = jsBefore ++ (script ++ jsAfter) ∧
          jsBefore.count '\n' = front.count '\n') ∧
      js.count '\n' = text.count '\n' := by
  rcases hs : scan text 0 true with e | ⟨tokens, stop⟩
  · rw [render_of_scan_error hs] at h
    cases h
  obtain ⟨placed, hplaced, htokens, htiles, hrender⟩ := render_of_scan_ok hs
  subst htokens
  rw [h] at hrender
  have hrun := Lexer.run_of_placedTokens hplaced
  have hleft : ((Lexer.ofOffset text 0).withBlanks true).cursor.rest = text := text.fromByte_zero
  refine ⟨placed, stop, hplaced, rfl, htiles, hrender.symm, fun before p after hsplit => ?_, ?_⟩
  · rw [hsplit] at hrun hrender
    obtain ⟨jsBefore, r, hbefore, hr, rfl⟩ := renderPlaced_append hrender.symm
    obtain ⟨script, jsAfter, hscript, hafter, rfl⟩ := renderPlaced_cons hr
    obtain ⟨l', passed, hrun', hk', hrest, hpos, hcount⟩ := hrun.exists_after rfl
    have hstart : p.start = passed.byteLength := by
      rw [hrun'.start_eq hk', hpos]
      exact Nat.zero_add _
    rw [hleft] at hrest
    refine ⟨passed, jsBefore, script, jsAfter, ?_, hbefore, hscript, hafter, rfl,
      hcount jsBefore hbefore⟩
    rw [hrest, hstart]
    exact Text.takeBytes?_append ..
  · rw [← List.append_nil placed] at hrun
    obtain ⟨l', passed, hrun', hk', hrest, -, hcount⟩ := hrun.exists_after rfl
    rw [hleft, hrun'.rest_eq_nil hk', List.append_nil] at hrest
    rw [hcount js hrender.symm, hrest]

theorem render_line_feeds_symbol :
    render "\x60a\n\x60\x60\x60 \x22b\nc\x22\n#d 1".toList =
      .ok "\x60a\n\\\x60\x60 // b\n// c\nSymbol.for(\x22d\x22) 1".toList ∧
    ∃ front jsBefore : Text,
      Text.takeBytes? "\x60a\n\x60\x60\x60 \x22b\nc\x22\n#d 1".toList 13 = some front ∧
      "\x60a\n\\\x60\x60 // b\n// c\nSymbol.for(\x22d\x22) 1".toList =
        jsBefore ++ "Symbol.for(\x22d\x22) 1".toList ∧
      jsBefore.count '\n' = front.count '\n' ∧ front.count '\n' = 3 := by
  have hdrive : ((Lexer.ofOffset "\x60a\n\x60\x60\x60 \x22b\nc\x22\n#d 1".toList 0).withBlanks
      true).drive (List.replicate 8 .nextToken) =
      ([⟨⟨.string, "a\n\x60".toList⟩, 0, 6⟩, ⟨⟨.whitespace, [' ']⟩, 6, 7⟩,
        ⟨⟨.comment, "b\nc".toList⟩, 7, 12⟩, ⟨⟨.whitespace, ['\n']⟩, 12, 13⟩,
        ⟨⟨.symbol, ['d']⟩, 13, 15⟩, ⟨⟨.whitespace, [' ']⟩, 15, 16⟩,
        ⟨⟨.number, ['1']⟩, 16, 17⟩], some (.ok 17)) := rfl
  have hscan := scan_of_drive (Text.isBoundary_zero _).canStart true hdrive
  have hrender : render "\x60a\n\x60\x60\x60 \x22b\nc\x22\n#d 1".toList =
      .ok "\x60a\n\\\x60\x60 // b\n// c\nSymbol.for(\x22d\x22) 1".toList :=
    render_of_renderTokens hscan rfl
  obtain ⟨placed, stop, hplaced, -, -, -, hfront, -⟩ := render_line_feeds hrender
  obtain ⟨rfl, rfl⟩ := Prod.mk.inj
    (Except.ok.inj (hplaced.symm.trans (Lexer.placedTokens_of_drive hdrive)))
  obtain ⟨front, jsBefore, script, jsAfter, htake, -, hscript, hafter, hjs, hcount⟩ :=
    hfront [_, _, _, _] _ [_, _] rfl
  obtain rfl := Except.ok.inj hscript
  obtain rfl := Except.ok.inj hafter
  have hfeeds : Text.takeBytes? "\x60a\n\x60\x60\x60 \x22b\nc\x22\n#d 1".toList 13 =
      some "\x60a\n\x60\x60\x60 \x22b\nc\x22\n".toList := by decide +kernel
  obtain rfl := Option.some.inj (htake.symm.trans hfeeds)
  exact ⟨hrender, _, jsBefore, hfeeds, hjs, hcount, by decide⟩

end Smalltalk
