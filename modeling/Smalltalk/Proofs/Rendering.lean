import Smalltalk.Diagnostic
import Smalltalk.Proofs.Calls
import Smalltalk.Proofs.Tiling

/-! # Rendering a text and rendering its tokens

A text is rendered from its tokens with their places, a list of tokens without places. Both stop at
the first token that has no form in the script; the text knows the offset of that token. An error of
the scan comes before all others.

* `Token.HasScript`, `Token.scriptFault`: the tokens with a form in the script, and what is said of
  the others.
* `renderPlaced_of_find?_some`: the first token without a form decides.
* `render_refines_renderTokens`: rendering a text is rendering the tokens of its scan, with offsets
  that point at the tokens. -/

namespace Smalltalk

/-! ### Tokens with a form in the script -/

namespace Token

/-- The token has a form in the script. -/
def HasScript (k : Token) : Prop :=
  match k.kind with
  | .char | .identifier | .parameter | .blockArgument => False
  | .special => k.value ∈ ["+", "-", "*", "/", "=", "=="].map String.toList
  | .number | .string | .symbol | .comment | .whitespace => True

instance (k : Token) : Decidable k.HasScript := by
  unfold HasScript; split <;> infer_instance

/-- What is said of a token without a form in the script. -/
def scriptFault (k : Token) : RenderFault :=
  if k.kind = .special then .unknownOperator k.value else .unknownToken k.kind k.value

theorem source_of_not_hasScript {k : Token} {w : Text} {atEnd : Prop} (h : ¬ k.HasScript)
    (hw : k.WrittenAs w atEnd) : w = k.source := by
  obtain ⟨kind, value⟩ := k
  cases kind with
  | number => exact absurd trivial h
  | string => exact absurd trivial h
  | comment => exact absurd trivial h
  | _ => exact hw

end Token

namespace Script

theorem operator?_eq_none {v : Text}
    (h : v ∉ ["+", "-", "*", "/", "=", "=="].map String.toList) : operator? v = none := by
  unfold operator?
  split
  all_goals first | exact absurd (by decide) h | rfl

theorem exists_operator? {v : Text}
    (h : v ∈ ["+", "-", "*", "/", "=", "=="].map String.toList) : ∃ js, operator? v = some js := by
  simp only [List.map_cons, List.map_nil, List.mem_cons, List.not_mem_nil, or_false] at h
  rcases h with rfl | rfl | rfl | rfl | rfl | rfl <;> exact ⟨_, rfl⟩

theorem ofToken_of_hasScript {k : Token} (h : k.HasScript) : ∃ js, ofToken k = .ok js := by
  obtain ⟨kind, value⟩ := k
  cases kind with
  | special =>
    obtain ⟨js, hjs⟩ := exists_operator? h
    exact ⟨js, by simp only [ofToken, hjs]⟩
  | number => exact ⟨_, rfl⟩
  | string => exact ⟨_, rfl⟩
  | symbol => exact ⟨_, rfl⟩
  | comment => exact ⟨_, rfl⟩
  | whitespace => exact ⟨_, rfl⟩
  | _ => exact absurd h id

theorem ofToken_of_not_hasScript {k : Token} (h : ¬ k.HasScript) :
    ofToken k = .error k.scriptFault := by
  obtain ⟨kind, value⟩ := k
  cases kind with
  | special => simp only [ofToken, operator?_eq_none h]; rfl
  | char => rfl
  | identifier => rfl
  | parameter => rfl
  | blockArgument => rfl
  | _ => exact absurd trivial h

end Script

/-! ### Lists of tokens -/

theorem renderPlaced_of_find?_none {placed : List PlacedToken}
    (h : placed.find? (¬ ·.token.HasScript) = none) :
    ∃ js, renderPlaced placed = .ok js ∧ renderTokens (placed.map (·.token)) = .ok js := by
  induction placed with
  | nil => exact ⟨[], rfl, rfl⟩
  | cons p ps ih =>
    rw [List.find?_cons] at h
    by_cases hp : p.token.HasScript
    · obtain ⟨js, hjs⟩ := Script.ofToken_of_hasScript hp
      obtain ⟨rest, hplaced, htokens⟩ := ih (by simpa [hp] using h)
      refine ⟨js ++ rest, ?_, ?_⟩
      · simp only [renderPlaced, hjs, hplaced]
        rfl
      · simp only [List.map_cons, renderTokens, hjs, htokens]
        rfl
    · simp [hp] at h

/-- **The first token without a form in the script decides.** -/
theorem renderPlaced_of_find?_some {placed : List PlacedToken} {p : PlacedToken}
    (h : placed.find? (¬ ·.token.HasScript) = some p) :
    renderPlaced placed = .error (.unsupported p.token.scriptFault (some p.start)) ∧
      renderTokens (placed.map (·.token)) = .error (.unsupported p.token.scriptFault none) := by
  induction placed with
  | nil => simp at h
  | cons q ps ih =>
    rw [List.find?_cons] at h
    by_cases hq : q.token.HasScript
    · obtain ⟨js, hjs⟩ := Script.ofToken_of_hasScript hq
      obtain ⟨hplaced, htokens⟩ := ih (by simpa [hq] using h)
      refine ⟨?_, ?_⟩
      · simp only [renderPlaced, hjs, hplaced]
        rfl
      · simp only [List.map_cons, renderTokens, hjs, htokens]
        rfl
    · have hqp : q = p := by simpa [hq] using h
      subst hqp
      have hfault := Script.ofToken_of_not_hasScript hq
      refine ⟨?_, ?_⟩
      · simp only [renderPlaced, hfault]
      · simp only [List.map_cons, renderTokens, hfault]

theorem Tiles.writtenAs {text : Text} {start : Nat} {placed : List PlacedToken} {p : PlacedToken}
    (h : Tiles text start placed) (hp : p ∈ placed) :
    ∃ w atEnd, text.slice? p.start p.stop = some w ∧ p.token.WrittenAs w atEnd := by
  induction placed generalizing start with
  | nil => simp at hp
  | cons q ps ih =>
    obtain ⟨-, -, -, -, ⟨w, hslice, hw⟩, htiles⟩ := h
    rcases List.mem_cons.mp hp with rfl | hp
    · exact ⟨w, _, hslice, hw⟩
    · exact ih htiles hp

/-! ### Texts -/

theorem render_of_scan_error {text : Text} {e : ScanError} (h : scan text 0 true = .error e) :
    render text = .error (.scan e) := by
  rw [render, scan_error text.isBoundary_zero.canStart h]

theorem render_of_scan_ok {text : Text} {s : Scan} (h : scan text 0 true = .ok s) :
    ∃ placed, ((Lexer.ofOffset text 0).withBlanks true).placedTokens = .ok (placed, s.stop) ∧
      s.tokens = placed.map (·.token) ∧ Tiles text 0 placed ∧
      render text = renderPlaced placed := by
  obtain ⟨-, placed, hrun, htokens⟩ := scan_ok h
  have hplaced := Lexer.placedTokens_eq_ok_iff.mpr hrun
  have hb : ((Lexer.ofOffset text 0).withBlanks true).cursor.OnBoundary :=
    Cursor.onBoundary_ofOffset text.isBoundary_zero
  refine ⟨placed, hplaced, htokens, hrun.tiles hb rfl, ?_⟩
  rw [render, hplaced]

theorem render_of_renderTokens {text : Text} {s : Scan} {js : Text} (h : scan text 0 true = .ok s)
    (hjs : renderTokens s.tokens = .ok js) : render text = .ok js := by
  obtain ⟨placed, -, htokens, -, hr⟩ := render_of_scan_ok h
  rw [htokens] at hjs
  rcases hf : placed.find? (¬ ·.token.HasScript) with _ | p
  · obtain ⟨js', hplaced, htokens'⟩ := renderPlaced_of_find?_none hf
    rw [hr, hplaced, ← hjs, htokens']
  · rw [(renderPlaced_of_find?_some hf).2] at hjs
    cases hjs

theorem renderTokens_of_render {text js : Text} {s : Scan} (h : scan text 0 true = .ok s)
    (hjs : render text = .ok js) : renderTokens s.tokens = .ok js := by
  obtain ⟨placed, -, htokens, -, hr⟩ := render_of_scan_ok h
  rw [hr] at hjs
  rw [htokens]
  rcases hf : placed.find? (¬ ·.token.HasScript) with _ | p
  · obtain ⟨js', hplaced, htokens'⟩ := renderPlaced_of_find?_none hf
    rw [htokens', ← hjs, hplaced]
  · rw [(renderPlaced_of_find?_some hf).1] at hjs
    cases hjs

/-- **A text fails** with the error of its scan or at a token without a form in the script. -/
theorem render_error_cases {text : Text} {e : RenderError} (h : render text = .error e) :
    (∃ e', scan text 0 true = .error e' ∧ e = .scan e') ∨
    ∃ placed stop p,
      ((Lexer.ofOffset text 0).withBlanks true).placedTokens = .ok (placed, stop) ∧
      Tiles text 0 placed ∧ p ∈ placed ∧ ¬ p.token.HasScript ∧
      e = .unsupported p.token.scriptFault (some p.start) := by
  rcases hs : scan text 0 true with e' | s
  · rw [render_of_scan_error hs] at h
    exact Or.inl ⟨e', rfl, (Except.error.inj h).symm⟩
  · obtain ⟨placed, hplaced, -, htiles, hr⟩ := render_of_scan_ok hs
    rcases hf : placed.find? (¬ ·.token.HasScript) with _ | p
    · obtain ⟨js, hjs, -⟩ := renderPlaced_of_find?_none hf
      rw [hr, hjs] at h
      cases h
    · rw [hr, (renderPlaced_of_find?_some hf).1] at h
      exact Or.inr ⟨placed, s.stop, p, hplaced, htiles, List.mem_of_find?_eq_some hf,
        by simpa using List.find?_some hf, (Except.error.inj h).symm⟩

theorem offset?_of_render_error {text : Text} {e : RenderError} (h : render text = .error e) :
    ∃ offset, e.offset? = some offset := by
  rcases render_error_cases h with ⟨e', -, rfl⟩ | ⟨-, -, p, -, -, -, -, rfl⟩
  · exact ⟨e'.offset, rfl⟩
  · exact ⟨p.start, rfl⟩

theorem RenderError.exists_diagnostic_spanAt {e : RenderError} {offset : Nat}
    (h : e.offset? = some offset) (source : Source) :
    ∃ d, e.diagnostic? source = some d ∧ d.span = source.spanAt offset := by
  rcases e with e | ⟨fault, offset'⟩
  · obtain rfl : e.offset = offset := Option.some.inj h
    exact ⟨_, rfl, rfl⟩
  · have ho : offset' = some offset := h
    rw [ho]
    exact ⟨_, rfl, rfl⟩

theorem RenderError.exists_diagnostic {e : RenderError} {offset : Nat} (h : e.offset? = some offset)
    (source : Source) : ∃ d, e.diagnostic? source = some d ∧ d.span.start = offset := by
  obtain ⟨d, hd, hspan⟩ := exists_diagnostic_spanAt h source
  exact ⟨d, hd, by rw [hspan]; rfl⟩

/-- **Rendering a text is rendering the tokens of its scan.** An error of the scan is the error of
the rendering. Otherwise the text and its tokens have the same script or fail at the same token, the
first one without a form in the script, and the text adds the offset where the source form of that
token starts. So every failure of a text has an offset and a diagnostic. -/
theorem render_refines_renderTokens (text : Text) :
    (∀ e, scan text 0 true = .error e → render text = .error (.scan e)) ∧
    (∀ s, scan text 0 true = .ok s →
      ∃ placed, ((Lexer.ofOffset text 0).withBlanks true).placedTokens = .ok (placed, s.stop) ∧
        s.tokens = placed.map (·.token) ∧ Tiles text 0 placed ∧
        match placed.find? (¬ ·.token.HasScript) with
        | none => ∃ js, render text = .ok js ∧ renderTokens s.tokens = .ok js
        | some p =>
          text.slice? p.start p.stop = some p.token.source ∧
          render text = .error (.unsupported p.token.scriptFault (some p.start)) ∧
          renderTokens s.tokens = .error (.unsupported p.token.scriptFault none)) ∧
    ∀ e, render text = .error e → ∃ offset, e.offset? = some offset ∧
      ∀ source, ∃ d, e.diagnostic? source = some d ∧ d.span.start = offset := by
  refine ⟨fun e => render_of_scan_error, fun s h => ?_, fun e h => ?_⟩
  · obtain ⟨placed, hplaced, htokens, htiles, hr⟩ := render_of_scan_ok h
    refine ⟨placed, hplaced, htokens, htiles, ?_⟩
    rw [hr, htokens]
    split
    · next hf => exact renderPlaced_of_find?_none hf
    · next p hf =>
      have hp : ¬ p.token.HasScript := by simpa using List.find?_some hf
      obtain ⟨w, atEnd, hslice, hw⟩ := htiles.writtenAs (List.mem_of_find?_eq_some hf)
      rw [Token.source_of_not_hasScript hp hw] at hslice
      exact ⟨hslice, renderPlaced_of_find?_some hf⟩
  · obtain ⟨offset, ho⟩ := offset?_of_render_error h
    exact ⟨offset, ho, RenderError.exists_diagnostic ho⟩

theorem render_refines_renderTokens_assignment :
    render "x $".toList = .error (.scan ⟨.trailingDollar, 2⟩) ∧
    render "#a <- x".toList =
      .error (.unsupported (.unknownOperator "<-".toList) (some 3)) ∧
    ∃ offset,
      (RenderError.unsupported (.unknownOperator "<-".toList) (some 3)).offset? = some offset ∧
      ∀ source, ∃ d, (RenderError.unsupported (.unknownOperator "<-".toList) (some 3)).diagnostic?
        source = some d ∧ d.span.start = offset := by
  have hdollar : ((Lexer.ofOffset "x $".toList 0).withBlanks true).drive
      (List.replicate 3 .nextToken) =
      ([⟨⟨.identifier, ['x']⟩, 0, 1⟩, ⟨⟨.whitespace, [' ']⟩, 1, 2⟩],
        some (.error ⟨.trailingDollar, 2⟩)) := rfl
  have hdrive : ((Lexer.ofOffset "#a <- x".toList 0).withBlanks true).drive
      (List.replicate 6 .nextToken) =
      ([⟨⟨.symbol, ['a']⟩, 0, 2⟩, ⟨⟨.whitespace, [' ']⟩, 2, 3⟩, ⟨⟨.special, "<-".toList⟩, 3, 5⟩,
        ⟨⟨.whitespace, [' ']⟩, 5, 6⟩, ⟨⟨.identifier, ['x']⟩, 6, 7⟩], some (.ok 7)) := rfl
  have hscan := scan_of_drive (Text.isBoundary_zero _).canStart true hdrive
  obtain ⟨placed, hplaced, -, -, h⟩ := (render_refines_renderTokens "#a <- x".toList).2.1 _ hscan
  rw [Lexer.placedTokens_of_drive hdrive] at hplaced
  obtain ⟨rfl, -⟩ := Prod.mk.inj (Except.ok.inj hplaced)
  have herror := scan_of_drive (Text.isBoundary_zero _).canStart true hdollar
  exact ⟨(render_refines_renderTokens _).1 _ herror, h.2.1,
    (render_refines_renderTokens _).2.2 _ h.2.1⟩

end Smalltalk
