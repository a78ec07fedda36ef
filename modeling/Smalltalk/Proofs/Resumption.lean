import Smalltalk.Proofs.Step

/-! # A scan depends on what is left to read

Where a scan starts matters only for the offsets it reports: the tokens and the faults are those of
the text that is left there, read from its front by `Text.readTokens`. So a scan can be taken up
anywhere, whatever stands before.

* `Lexer.placedTokens_eq_readTokens`, `scan_eq_readTokens`: runs and scans in terms of what is left.
* `scan_resumes`: a scan behind a front part is the scan of the other part with the offsets moved,
  and a scan taken up behind one of its tokens goes on with the tokens after it. -/

namespace Smalltalk

namespace Text

theorem length_drop_lexeme_lt {keepBlanks : Bool} {t u : Text} {c : Char} {k : Token}
    (h : t.dropBlanks keepBlanks = c :: u) (ho : (Reading.ofText c u).outcome = .ok k) :
    u.length + 1 - (Reading.ofText c u).lexeme.length < t.length := by
  have hsplit := congrArg List.length (skippedBlanks_append_dropBlanks keepBlanks t)
  have hlen := List.length_pos_iff.mpr (Reading.lexeme_ne_nil ho)
  rw [h, List.length_append, List.length_cons] at hsplit
  omega

/-- The tokens of a text read from its front, or the first error; offsets count from the front. -/
def readTokens (keepBlanks : Bool) (t : Text) : Except ScanError (List Token) :=
  match h : t.dropBlanks keepBlanks with
  | [] => .ok []
  | c :: u =>
    let skipped := (t.skippedBlanks keepBlanks).byteLength
    match ho : (Reading.ofText c u).outcome with
    | .error e => .error (e.shift skipped)
    | .ok k =>
      let lexeme := (Reading.ofText c u).lexeme
      have := length_drop_lexeme_lt h ho
      ((readTokens keepBlanks ((c :: u).drop lexeme.length)).map (k :: ·)).mapError
        (·.shift (skipped + lexeme.byteLength))
termination_by t.length

theorem readTokens_of_nil {keepBlanks : Bool} {t : Text} (h : t.dropBlanks keepBlanks = []) :
    t.readTokens keepBlanks = .ok [] := by
  rw [readTokens]; split <;> simp_all

theorem readTokens_of_cons {keepBlanks : Bool} {t u : Text} {c : Char}
    (h : t.dropBlanks keepBlanks = c :: u) :
    t.readTokens keepBlanks =
      match (Reading.ofText c u).outcome with
      | .error e => .error (e.shift (t.skippedBlanks keepBlanks).byteLength)
      | .ok k =>
        ((readTokens keepBlanks ((c :: u).drop (Reading.ofText c u).lexeme.length)).map
          (k :: ·)).mapError (·.shift ((t.skippedBlanks keepBlanks).byteLength +
            (Reading.ofText c u).lexeme.byteLength)) := by
  rw [readTokens]
  split
  · next h' => simp [h] at h'
  · next c' u' h' =>
    obtain ⟨rfl, rfl⟩ := List.cons.inj (h.symm.trans h')
    split <;> simp_all

theorem readTokens_of_error {keepBlanks : Bool} {t u : Text} {c : Char} {e : ScanError}
    (h : t.dropBlanks keepBlanks = c :: u) (ho : (Reading.ofText c u).outcome = .error e) :
    t.readTokens keepBlanks = .error (e.shift (t.skippedBlanks keepBlanks).byteLength) := by
  rw [readTokens_of_cons h, ho]

theorem readTokens_of_token {keepBlanks : Bool} {t u lexeme r : Text} {c : Char} {k : Token}
    (h : t.dropBlanks keepBlanks = c :: u) (hr : Reading.ofText c u = ⟨.ok k, lexeme⟩)
    (hct : c :: u = lexeme ++ r) :
    t.readTokens keepBlanks = ((r.readTokens keepBlanks).map (k :: ·)).mapError
      (·.shift ((t.skippedBlanks keepBlanks).byteLength + lexeme.byteLength)) := by
  rw [readTokens_of_cons h, hr, hct, List.drop_left]

theorem readTokens_cons {keepBlanks : Bool} {t u lexeme r : Text} {c : Char} {k : Token}
    {ks : List Token} (h : t.dropBlanks keepBlanks = c :: u)
    (hr : Reading.ofText c u = ⟨.ok k, lexeme⟩) (hct : c :: u = lexeme ++ r)
    (hks : r.readTokens keepBlanks = .ok ks) : t.readTokens keepBlanks = .ok (k :: ks) := by
  rw [readTokens_of_token h hr hct, hks]
  rfl

end Text

/-! ### Runs and scans -/

theorem ScanError.shift_shift (e : ScanError) (m n : Nat) :
    (e.shift m).shift n = e.shift (n + m) := by
  simp [ScanError.shift, Nat.add_assoc]

/-- The scan that a run amounts to. -/
def Scan.ofPlaced (run : List PlacedToken × Nat) : Scan := ⟨run.1.map (·.token), run.2⟩

namespace Lexer

/-- **A run reads the tokens of what is left,** with the offsets moved to where the lexer stands. -/
theorem placedTokens_eq_readTokens (l : Lexer) :
    l.placedTokens.map Scan.ofPlaced =
      ((l.cursor.rest.readTokens l.keepBlanks).mapError (·.shift l.position)).map
        (⟨·, l.position + l.cursor.rest.byteLength⟩) := by
  induction l using placedTokens.induct with
  | case1 l e l' hn =>
    obtain ⟨c, t, fault, hr, ho, rfl⟩ := nextToken_error hn
    rw [rest_tokenCursor] at hr
    rw [placedTokens_of_error hn, Text.readTokens_of_error hr ho, position_tokenCursor]
    exact congrArg Except.error (ScanError.shift_shift ..).symm
  | case2 l l' hn =>
    have hstop := (Run.done hn).stop_eq
    obtain ⟨hr, -⟩ := nextToken_none hn
    rw [rest_tokenCursor] at hr
    rw [placedTokens_of_none hn, Text.readTokens_of_nil hr, hstop]
    rfl
  | case3 l k l' hn _ ih =>
    obtain ⟨lexeme, hf⟩ := nextToken_token hn
    obtain ⟨c, t, hct, hr⟩ := hf.reading
    have hdrop := hf.dropBlanks.trans hct
    have hstart := hf.tokenStart
    have hpos := hf.position
    have hmove : l'.position = l.position + (l.skipped.byteLength + lexeme.byteLength) := by omega
    rw [placedTokens_of_token hn, Text.readTokens_of_token hdrop hr hct.symm]
    rw [hf.keepBlanks] at ih
    -- Both runs go on from `l'`, and there they fail together or succeed together.
    rcases hp : l'.placedTokens with e | run <;>
      rcases hq : l'.cursor.rest.readTokens l.keepBlanks with e' | tokens <;>
      rw [hp, hq] at ih
    · have he : e = e'.shift l'.position := Except.error.inj ih
      rw [he, hmove]
      exact congrArg Except.error (ScanError.shift_shift ..).symm
    · cases ih
    · cases ih
    · have hscan : Scan.ofPlaced run = ⟨tokens, l'.position + l'.cursor.rest.byteLength⟩ :=
        Except.ok.inj ih
      have htokens : run.1.map (·.token) = tokens := congrArg Scan.tokens hscan
      have hstop : run.2 = l'.position + l'.cursor.rest.byteLength := congrArg Scan.stop hscan
      have hend : run.2 = l.position + l.cursor.rest.byteLength := by
        rw [hstop, hf.split, Text.byteLength_append, Text.byteLength_append]
        omega
      rw [← htokens, ← hend]
      rfl

end Lexer

/-- **A scan reads the tokens of what is left at its start.** -/
theorem scan_eq_readTokens {text : Text} {start : Nat} (h : text.CanStart start)
    (keepBlanks : Bool) :
    scan text start keepBlanks =
      (((text.fromByte start).readTokens keepBlanks).mapError (·.shift start)).map
        (⟨·, start + (text.fromByte start).byteLength⟩) := by
  unfold scan
  rw [if_pos h]
  exact Lexer.placedTokens_eq_readTokens _

theorem scan_of_readTokens {text : Text} {start : Nat} {keepBlanks : Bool} {tokens : List Token}
    (h : text.CanStart start) (ht : (text.fromByte start).readTokens keepBlanks = .ok tokens) :
    scan text start keepBlanks = .ok ⟨tokens, start + (text.fromByte start).byteLength⟩ := by
  rw [scan_eq_readTokens h, ht]
  rfl

theorem scan_eq_placedTokens {l : Lexer} (h : l.cursor.source.CanStart l.position) :
    scan l.cursor.source l.position l.keepBlanks =
      l.placedTokens.map Scan.ofPlaced := by
  rw [scan_eq_readTokens h, Lexer.placedTokens_eq_readTokens, l.cursor.rest_eq]
  rfl

/-! ### Taking up a scan -/

namespace Lexer

/-- The lexer after `n` tokens. -/
def after (l : Lexer) : Nat → Lexer
  | 0 => l
  | n + 1 => l.nextToken.2.after n

theorem Run.after {l : Lexer} {placed : List PlacedToken} {stop : Nat} (h : l.Run placed stop)
    {n : Nat} (hn : n ≤ placed.length) :
    (l.after n).Run (placed.drop n) stop ∧ (l.after n).cursor.source = l.cursor.source ∧
      (l.after n).keepBlanks = l.keepBlanks ∧ (n ≠ 0 → (l.after n).cursor.OnBoundary) := by
  induction h generalizing n with
  | done hs =>
    obtain rfl := Nat.le_zero.mp hn
    exact ⟨.done hs, rfl, rfl, fun h0 => absurd rfl h0⟩
  | token hs hf hr ih =>
    rcases n with _ | n
    · exact ⟨.token hs hf hr, rfl, rfl, fun h0 => absurd rfl h0⟩
    · obtain ⟨hrun, hsource, hkeep, hb⟩ := ih (Nat.le_of_succ_le_succ hn)
      rw [Lexer.after, hs]
      refine ⟨hrun, hsource.trans hf.source, hkeep.trans hf.keepBlanks, fun _ => ?_⟩
      rcases Nat.eq_zero_or_pos n with rfl | h0
      · exact hf.onBoundary
      · exact hb (by omega)

end Lexer

/-- The same scan seen from `base` bytes further to the front. -/
def Scan.shift (s : Scan) (base : Nat) : Scan := { s with stop := base + s.stop }

theorem scan_append (pre t : Text) (keepBlanks : Bool) :
    scan (pre ++ t) pre.byteLength keepBlanks =
      ((scan t 0 keepBlanks).mapError (·.shift pre.byteLength)).map (·.shift pre.byteLength) := by
  have hdrop : (pre ++ t).dropBytes? pre.byteLength = some t :=
    Text.dropBytes?_eq_some_iff.mpr ⟨pre, rfl, rfl⟩
  have hrest : (pre ++ t).fromByte pre.byteLength = t := by
    rw [Text.fromByte, hdrop, Option.getD_some]
  have hcan : (pre ++ t).CanStart pre.byteLength :=
    Or.inr (Option.isSome_iff_exists.mpr ⟨t, hdrop⟩)
  have hcan' : t.CanStart 0 := (Text.isBoundary_zero t).canStart
  rw [scan_eq_readTokens hcan, scan_eq_readTokens hcan', hrest, Text.fromByte_zero]
  rcases t.readTokens keepBlanks with e | tokens
  · have he : (e.shift 0).shift pre.byteLength = e.shift pre.byteLength := by
      rw [ScanError.shift_shift, Nat.add_zero]
    exact congrArg Except.error he.symm
  · have hscan : Scan.shift ⟨tokens, 0 + t.byteLength⟩ pre.byteLength =
        ⟨tokens, pre.byteLength + t.byteLength⟩ := by
      rw [Scan.shift, Nat.zero_add]
    exact congrArg Except.ok hscan.symm

theorem scan_after {t : Text} {start : Nat} {keepBlanks : Bool} {result : Scan}
    (h : scan t start keepBlanks = .ok result) {n : Nat} (hn : n ≤ result.tokens.length) :
    scan t (((Lexer.ofOffset t start).withBlanks keepBlanks).after n).position keepBlanks =
      .ok ⟨result.tokens.drop n, result.stop⟩ := by
  obtain ⟨hcan, placed, hr, ht⟩ := scan_ok h
  rw [ht, List.length_map] at hn
  obtain ⟨hrun, hsource, hkeep, hb⟩ := hr.after hn
  have hcan' : (((Lexer.ofOffset t start).withBlanks keepBlanks).after n).cursor.source.CanStart
      (((Lexer.ofOffset t start).withBlanks keepBlanks).after n).position := by
    rcases Nat.eq_zero_or_pos n with rfl | h0
    · exact hcan
    · exact (hb (by omega)).isBoundary.canStart
  have hscan := scan_eq_placedTokens hcan'
  rw [hsource, hkeep, Lexer.placedTokens_eq_ok_iff.mpr hrun] at hscan
  rw [ht, ← List.map_drop]
  exact hscan

/-- **A scan can be taken up anywhere.** Behind a front part it is the scan of the other part with
the offsets moved, whatever the front part is; and behind the first `n` tokens of a scan that
succeeds, it gives the tokens after them and stops where the whole scan stops. -/
theorem scan_resumes :
    (∀ (pre t : Text) (keepBlanks : Bool),
      scan (pre ++ t) pre.byteLength keepBlanks =
        ((scan t 0 keepBlanks).mapError (·.shift pre.byteLength)).map (·.shift pre.byteLength)) ∧
    ∀ (t : Text) (start : Nat) (keepBlanks : Bool) (result : Scan),
      scan t start keepBlanks = .ok result → ∀ n ≤ result.tokens.length,
        scan t (((Lexer.ofOffset t start).withBlanks keepBlanks).after n).position keepBlanks =
          .ok ⟨result.tokens.drop n, result.stop⟩ :=
  ⟨scan_append, fun _ _ _ _ h _ hn => scan_after h hn⟩

theorem scan_resumes_open_string :
    scan ('$' :: 'é' :: " <- `a``".toList) 6 false = .ok ⟨[⟨.string, "a`".toList⟩], 11⟩ := by
  have h : scan ('$' :: 'é' :: " <- `a``".toList) 0 false = .ok ⟨[⟨.char, ['é']⟩,
      ⟨.special, "<-".toList⟩, ⟨.string, "a`".toList⟩], 11⟩ :=
    scan_of_readTokens (Or.inr rfl) (Text.readTokens_cons rfl rfl rfl
      (Text.readTokens_cons rfl rfl rfl (Text.readTokens_cons rfl rfl rfl
        (Text.readTokens_of_nil rfl))))
  exact scan_resumes.2 _ _ _ _ h 2 (by decide)

end Smalltalk
