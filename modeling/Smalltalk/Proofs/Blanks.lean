import Smalltalk.Proofs.Calls
import Smalltalk.Proofs.Spelling

/-! # Keeping blanks only adds tokens for them

A lexer either makes tokens of runs of blanks or passes over them, and it can be switched between
the two at any time. A run of blanks is consumed as a whole in both cases, so behind it the lexer
stands where it would stand anyway: switching changes nothing but the tokens for blanks.

* `Lexer.drive_plain`: without its blanks, every sequence of calls and switches finds the tokens of
  a lexer that is never switched, at the same places, and ends in the same way.
* `scan_blanks_only_added`: hence the two kinds of scan differ only by the tokens for blanks. An
  offset inside a character is refused by a scan, but a lexer finds the end of the text there. -/

namespace Smalltalk

/-- The same scan without its runs of blanks. -/
def Scan.withoutBlanks (s : Scan) : Scan :=
  { s with tokens := s.tokens.filter (·.kind ≠ .whitespace) }

namespace PlacedToken

/-- The tokens that are no runs of blanks. -/
def withoutBlanks (placed : List PlacedToken) : List PlacedToken :=
  placed.filter (·.token.kind ≠ .whitespace)

theorem withoutBlanks_cons_of_eq {p : PlacedToken} (h : p.token.kind = .whitespace)
    (placed : List PlacedToken) : withoutBlanks (p :: placed) = withoutBlanks placed :=
  List.filter_cons_of_neg (by simp [h])

theorem withoutBlanks_cons_of_ne {p : PlacedToken} (h : p.token.kind ≠ .whitespace)
    (placed : List PlacedToken) : withoutBlanks (p :: placed) = p :: withoutBlanks placed :=
  List.filter_cons_of_pos (by simp [h])

theorem map_withoutBlanks (placed : List PlacedToken) :
    (withoutBlanks placed).map (·.token) =
      (placed.map (·.token)).filter (·.kind ≠ .whitespace) := by
  rw [List.filter_map]
  rfl

end PlacedToken

/-! ### One step with and without blanks -/

theorem Reading.ofText_of_isWhitespace {c : Char} (h : c.isWhitespace) (t : Text) :
    ofText c t = blanks (c :: t) := by
  simp only [ofText, h, if_true]

namespace Cursor

theorem advanceWhile_of_takeWhile {c : Cursor} {p : Char → Bool} (h : c.rest.takeWhile p = []) :
    c.advanceWhile p = c := by
  rw [advanceWhile, h]
  rfl

theorem advanceWhile_advanceWhile (c : Cursor) (p : Char → Bool) :
    (c.advanceWhile p).advanceWhile p = c.advanceWhile p := by
  refine advanceWhile_of_takeWhile ?_
  rw [rest_advanceWhile]
  have hhead := List.head?_dropWhile_not p c.rest
  rcases hd : c.rest.dropWhile p with _ | ⟨x, xs⟩
  · rfl
  · rw [hd] at hhead
    exact List.takeWhile_cons_of_neg (by simpa using hhead)

end Cursor

namespace Lexer

theorem tokenCursor_withBlanks_false (l : Lexer) :
    (l.withBlanks false).tokenCursor = l.tokenCursor.advanceWhile Char.isWhitespace := by
  change l.cursor.advanceWhile Char.isWhitespace = _
  unfold tokenCursor
  split
  · rfl
  · exact (Cursor.advanceWhile_advanceWhile ..).symm

theorem nextToken_withBlanks {l : Lexer} {keepBlanks : Bool}
    (h : (l.withBlanks keepBlanks).tokenCursor = l.tokenCursor) :
    (l.withBlanks keepBlanks).nextToken = (l.nextToken.1, l.nextToken.2.withBlanks keepBlanks) := by
  unfold nextToken
  simp only [h]
  split <;> rfl

theorem tokenCursor_withBlanks_of_end {l : Lexer} (h : l.tokenCursor.rest = []) :
    (l.withBlanks false).tokenCursor = l.tokenCursor := by
  rw [tokenCursor_withBlanks_false]
  exact Cursor.advanceWhile_of_takeWhile (by rw [h]; rfl)

theorem tokenCursor_withBlanks_of_cons {l : Lexer} {c : Char} {t : Text}
    (h : l.tokenCursor.rest = c :: t) (hc : c.isWhitespace = false) :
    (l.withBlanks false).tokenCursor = l.tokenCursor := by
  rw [tokenCursor_withBlanks_false]
  refine Cursor.advanceWhile_of_takeWhile ?_
  rw [h]
  exact List.takeWhile_cons_of_neg (by simp [hc])

theorem nextToken_plain_of_none {l l' : Lexer} (h : l.nextToken = (.ok none, l')) :
    (l.withBlanks false).nextToken = (.ok none, l'.withBlanks false) := by
  obtain ⟨hr, -⟩ := nextToken_none h
  rw [nextToken_withBlanks (tokenCursor_withBlanks_of_end hr), h]

theorem nextToken_plain_of_error {l l' : Lexer} {e : ScanError}
    (h : l.nextToken = (.error e, l')) :
    (l.withBlanks false).nextToken = (.error e, l'.withBlanks false) := by
  obtain ⟨c, t, fault, hr, ho, -⟩ := nextToken_error h
  have hc : c.isWhitespace = false := by
    rw [Bool.eq_false_iff]
    intro hc
    rw [Reading.ofText_of_isWhitespace hc] at ho
    cases ho
  rw [nextToken_withBlanks (tokenCursor_withBlanks_of_cons hr hc), h]

/-- A token that is no run of blanks is found in the same way without blanks. -/
theorem nextToken_plain_of_token {l l' : Lexer} {k : Token} (h : l.nextToken = (.ok (some k), l'))
    (hk : k.kind ≠ .whitespace) :
    (l.withBlanks false).nextToken = (.ok (some k), l'.withBlanks false) := by
  rcases nextToken_cases l with ⟨-, hn⟩ | ⟨c, t, hr, ⟨k', ho, hn⟩ | ⟨e, -, hn⟩⟩
  · simp [hn] at h
  · have hkk : k' = k := by
      rw [hn] at h
      simpa using congrArg Prod.fst h
    have hc : c.isWhitespace = false := by
      rw [Bool.eq_false_iff]
      intro hc
      rw [Reading.ofText_of_isWhitespace hc] at ho
      refine hk ?_
      rw [← hkk, ← Except.ok.inj ho]
    rw [nextToken_withBlanks (tokenCursor_withBlanks_of_cons hr hc), h]
  · simp [hn] at h

/-- **Behind a run of blanks** the lexer stands where it would have stood without it. -/
theorem nextToken_plain_of_blanks {l l' : Lexer} {k : Token} (h : l.nextToken = (.ok (some k), l'))
    (hk : k.kind = .whitespace) :
    (l.withBlanks false).nextToken = (l'.withBlanks false).nextToken := by
  rcases nextToken_cases l with ⟨-, hn⟩ | ⟨c, t, hr, ⟨k', ho, hn⟩ | ⟨e, -, hn⟩⟩
  · simp [hn] at h
  · rw [hn] at h
    simp only [Prod.mk.injEq, Except.ok.injEq, Option.some.injEq] at h
    obtain ⟨rfl, rfl⟩ := h
    have hc := Reading.isWhitespace_of_kind ho hk
    have hcursor : (l.moved (Reading.ofText c t).lexeme.length).cursor =
        l.tokenCursor.advanceWhile Char.isWhitespace := by
      rw [Reading.ofText_of_isWhitespace hc, Cursor.advanceWhile, hr]
      rfl
    have htoken : ((l.moved (Reading.ofText c t).lexeme.length).withBlanks false).tokenCursor =
        (l.withBlanks false).tokenCursor := by
      rw [tokenCursor_withBlanks_false l, ← Cursor.advanceWhile_advanceWhile, ← hcursor]
      rfl
    unfold nextToken
    simp only [htoken]
    split <;> rfl
  · simp [hn] at h

/-! ### Many steps -/

/-- **Switching changes nothing but the tokens for blanks.** -/
theorem drive_plain {l : Lexer} {calls : List Call} {placed : List PlacedToken}
    {outcome : Except ScanError Nat} (h : l.drive calls = (placed, some outcome)) :
    ∃ n, (l.withBlanks false).drive (List.replicate n .nextToken) =
      (PlacedToken.withoutBlanks placed, some outcome) := by
  induction calls generalizing l placed with
  | nil => simp [drive] at h
  | cons call calls ih =>
    cases call with
    | withBlanks keepBlanks => exact ih (l := l.withBlanks keepBlanks) h
    | nextToken =>
      rcases drive_nextToken_cases h with ⟨l', hn, rfl, rfl⟩ | ⟨e, l', hn, rfl, rfl⟩ |
        ⟨k, l', rest, hn, rfl, hrest⟩
      · exact ⟨1, drive_of_none (nextToken_plain_of_none hn) []⟩
      · exact ⟨1, drive_of_error (nextToken_plain_of_error hn) []⟩
      obtain ⟨n, hd⟩ := ih hrest
      by_cases hk : k.kind = .whitespace
      · -- the lexer without blanks is already there, with the same number of calls to go
        rcases n with _ | n
        · simp [drive] at hd
        · refine ⟨n + 1, ?_⟩
          rw [List.replicate_succ, drive] at hd ⊢
          rw [nextToken_plain_of_blanks hn hk, hd, PlacedToken.withoutBlanks_cons_of_eq hk]
      · refine ⟨n + 1, ?_⟩
        rw [List.replicate_succ, drive_of_token (nextToken_plain_of_token hn hk), hd,
          PlacedToken.withoutBlanks_cons_of_ne hk]
        rfl

end Lexer

/-! ### Scans -/

namespace Text

theorem length_fromByte_le (t : Text) (n : Nat) : (t.fromByte n).length ≤ t.length := by
  unfold fromByte
  rcases hd : t.dropBytes? n with _ | r
  · simp
  · obtain ⟨front, rfl, -⟩ := dropBytes?_eq_some_iff.mp hd
    simp

theorem fromByte_of_not_canStart {t : Text} {n : Nat} (h : ¬ t.CanStart n) : t.fromByte n = [] := by
  have hb : ¬ (t.dropBytes? n).isSome := fun hb => h (Or.inr hb)
  rw [Option.not_isSome_iff_eq_none] at hb
  rw [fromByte, hb, Option.getD_none]

end Text

theorem scan_withoutBlanks (text : Text) (start : Nat) :
    scan text start false = (scan text start true).map Scan.withoutBlanks := by
  by_cases hs : text.CanStart start
  · have hcount : ((Lexer.ofOffset text start).withBlanks true).cursor.rest.length <
        (List.replicate (text.length + 1) Lexer.Call.nextToken).count .nextToken := by
      rw [List.count_replicate_self]
      exact Nat.lt_succ_of_le (text.length_fromByte_le start)
    obtain ⟨placed, outcome, hd⟩ := Lexer.exists_drive_outcome hcount
    obtain ⟨n, hplain⟩ := Lexer.drive_plain hd
    rw [scan_of_drive hs true hd, scan_of_drive hs false hplain, PlacedToken.map_withoutBlanks]
    cases outcome <;> rfl
  · unfold scan
    rw [if_neg hs, if_neg hs]
    rfl

/-- **Keeping blanks only adds tokens for them.** A scan without blanks is the scan with blanks less
these tokens, wherever it starts. However a lexer is switched while it is asked for tokens, up to
the end of the text or the first error it finds the tokens of the lexer that is never switched, the
blanks apart, and ends as the scan does; and if it is asked often enough, it does end. Only inside a
character, where no scan starts, the lexer is at the end of the text at once. -/
theorem scan_blanks_only_added :
    (∀ (text : Text) (start : Nat),
      scan text start false = (scan text start true).map Scan.withoutBlanks) ∧
    (∀ (text : Text) (start : Nat) (calls : List Lexer.Call) (placed : List PlacedToken)
      (outcome : Except ScanError Nat),
      (Lexer.ofOffset text start).drive calls = (placed, some outcome) →
        (text.CanStart start →
          scan text start false =
            outcome.map (⟨(PlacedToken.withoutBlanks placed).map (·.token), ·⟩) ∧
          ∃ n, (Lexer.ofOffset text start).drive (List.replicate n .nextToken) =
            (PlacedToken.withoutBlanks placed, some outcome)) ∧
        (¬ text.CanStart start → placed = [] ∧ outcome = .ok start)) ∧
    ∀ (text : Text) (start : Nat) (calls : List Lexer.Call),
      text.length < calls.count .nextToken →
        ∃ placed outcome, (Lexer.ofOffset text start).drive calls = (placed, some outcome) := by
  refine ⟨scan_withoutBlanks, ?_, ?_⟩
  · intro text start calls placed outcome h
    refine ⟨fun hs => ?_, fun hs => ?_⟩
    · obtain ⟨n, hplain⟩ := Lexer.drive_plain h
      exact ⟨scan_of_drive hs false hplain, n, hplain⟩
    · exact Lexer.drive_of_rest_nil (Text.fromByte_of_not_canStart hs) h
  · intro text start calls h
    exact Lexer.exists_drive_outcome (Nat.lt_of_le_of_lt (text.length_fromByte_le start) h)

theorem scan_blanks_only_added_switched :
    (Lexer.ofOffset "a \t`b".toList 0).drive
        [.nextToken, .withBlanks true, .nextToken, .withBlanks false, .nextToken, .nextToken] =
      ([⟨⟨.identifier, ['a']⟩, 0, 1⟩, ⟨⟨.whitespace, [' ', '\t']⟩, 1, 3⟩,
        ⟨⟨.string, ['b']⟩, 3, 5⟩], some (.ok 5)) ∧
    scan "a \t`b".toList 0 false = .ok ⟨[⟨.identifier, ['a']⟩, ⟨.string, ['b']⟩], 5⟩ ∧
    (∃ n, (Lexer.ofOffset "a \t`b".toList 0).drive (List.replicate n .nextToken) =
      ([⟨⟨.identifier, ['a']⟩, 0, 1⟩, ⟨⟨.string, ['b']⟩, 3, 5⟩], some (.ok 5))) ∧
    ∃ placed outcome, (Lexer.ofOffset ['é'] 1).drive [.nextToken, .withBlanks true, .nextToken] =
      (placed, some outcome) ∧ placed = [] ∧ outcome = .ok 1 := by
  have h : (Lexer.ofOffset "a \t`b".toList 0).drive
      [.nextToken, .withBlanks true, .nextToken, .withBlanks false, .nextToken, .nextToken] =
      ([⟨⟨.identifier, ['a']⟩, 0, 1⟩, ⟨⟨.whitespace, [' ', '\t']⟩, 1, 3⟩,
        ⟨⟨.string, ['b']⟩, 3, 5⟩], some (.ok 5)) := rfl
  obtain ⟨hscan, hplain⟩ := (scan_blanks_only_added.2.1 _ _ _ _ _ h).1 (by decide)
  obtain ⟨placed, outcome, hend⟩ := scan_blanks_only_added.2.2 ['é'] 1
    [.nextToken, .withBlanks true, .nextToken] (by decide)
  exact ⟨h, hscan, hplain, placed, outcome, hend,
    (scan_blanks_only_added.2.1 _ _ _ _ _ hend).2 (by decide)⟩

/-- Inside a character, where a scan is refused, a lexer is at the end of the text. -/
theorem drive_inside_character :
    (Lexer.ofOffset ['é'] 1).drive [.nextToken] = ([], some (.ok 1)) ∧
      scan ['é'] 1 false = .error ⟨.invalidStart, 1⟩ ∧
      scan ['é'] 1 false ≠ (Except.ok 1 : Except ScanError Nat).map (⟨[], ·⟩) :=
  ⟨rfl, rfl, nofun⟩

end Smalltalk
