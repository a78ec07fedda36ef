import Smalltalk.Proofs.Step

/-! # Sequences of calls on a lexer

A lexer is asked for one token after another, and between two calls it may be switched to keep
blanks or to pass over them. `Lexer.drive` follows such a sequence of calls up to the end of the
text or the first error.

* `Lexer.exists_drive_outcome`: calls that go on reach the end of the text or an error.
* `Lexer.placedTokens_of_drive`: calls without switches find what a whole run finds. -/

namespace Smalltalk

namespace Lexer

/-- What is done with a lexer: ask for the next token, or switch tokens for blanks on or off. -/
inductive Call where
  | nextToken
  | withBlanks (keepBlanks : Bool)
  deriving DecidableEq

/-- **The tokens that calls find** up to the end of the text or the first error, and that outcome:
the offset of the end, the error, or nothing if the calls run out before. -/
def drive (l : Lexer) : List Call → List PlacedToken × Option (Except ScanError Nat)
  | [] => ([], none)
  | .withBlanks keepBlanks :: calls => (l.withBlanks keepBlanks).drive calls
  | .nextToken :: calls =>
    match l.nextToken with
    | (.error e, _) => ([], some (.error e))
    | (.ok none, l') => ([], some (.ok l'.position))
    | (.ok (some k), l') =>
      (⟨k, l'.tokenStart, l'.position⟩ :: (l'.drive calls).1, (l'.drive calls).2)

variable {l l' : Lexer} {calls : List Call} {placed : List PlacedToken}
  {outcome : Except ScanError Nat}

theorem drive_of_error {e : ScanError} (h : l.nextToken = (.error e, l')) (calls : List Call) :
    l.drive (.nextToken :: calls) = ([], some (.error e)) := by
  rw [drive, h]

theorem drive_of_none (h : l.nextToken = (.ok none, l')) (calls : List Call) :
    l.drive (.nextToken :: calls) = ([], some (.ok l'.position)) := by
  rw [drive, h]

theorem drive_of_token {k : Token} (h : l.nextToken = (.ok (some k), l')) (calls : List Call) :
    l.drive (.nextToken :: calls) =
      (⟨k, l'.tokenStart, l'.position⟩ :: (l'.drive calls).1, (l'.drive calls).2) := by
  rw [drive, h]

/-- A call gives the end of the text, an error, or a token from which the other calls go on. -/
theorem drive_nextToken_cases (h : l.drive (.nextToken :: calls) = (placed, some outcome)) :
    (∃ l', l.nextToken = (.ok none, l') ∧ placed = [] ∧ outcome = .ok l'.position) ∨
    (∃ e l', l.nextToken = (.error e, l') ∧ placed = [] ∧ outcome = .error e) ∨
    ∃ k l' rest, l.nextToken = (.ok (some k), l') ∧
      placed = ⟨k, l'.tokenStart, l'.position⟩ :: rest ∧ l'.drive calls = (rest, some outcome) := by
  rcases hn : l.nextToken with ⟨e | _ | k, l'⟩
  · rw [drive_of_error hn] at h
    obtain ⟨rfl, ho⟩ := Prod.mk.inj h
    exact Or.inr (Or.inl ⟨e, l', rfl, rfl, (Option.some.inj ho).symm⟩)
  · rw [drive_of_none hn] at h
    obtain ⟨rfl, ho⟩ := Prod.mk.inj h
    exact Or.inl ⟨l', rfl, rfl, (Option.some.inj ho).symm⟩
  · rw [drive_of_token hn] at h
    obtain ⟨rfl, ho⟩ := Prod.mk.inj h
    exact Or.inr (Or.inr ⟨k, l', _, rfl, rfl, by rw [← ho]⟩)

/-- **Calls that go on reach an outcome**: every token makes what is left shorter. -/
theorem exists_drive_outcome (h : l.cursor.rest.length < calls.count .nextToken) :
    ∃ placed outcome, l.drive calls = (placed, some outcome) := by
  induction calls generalizing l with
  | nil => simp at h
  | cons call calls ih =>
    cases call with
    | withBlanks keepBlanks =>
      rw [List.count_cons_of_ne (by simp)] at h
      exact ih (l := l.withBlanks keepBlanks) h
    | nextToken =>
      rw [List.count_cons_self] at h
      rcases hn : l.nextToken with ⟨e | _ | k, l'⟩
      · exact ⟨_, _, drive_of_error hn calls⟩
      · exact ⟨_, _, drive_of_none hn calls⟩
      · have hlt := rest_length_lt hn
        obtain ⟨rest, outcome, hrest⟩ := ih (l := l') (by omega)
        exact ⟨_, outcome, by rw [drive_of_token hn, hrest]⟩

/-- **Calls without switches find what a whole run finds.** -/
theorem placedTokens_of_drive {n : Nat}
    (h : l.drive (List.replicate n .nextToken) = (placed, some outcome)) :
    l.placedTokens = outcome.map (placed, ·) := by
  induction n generalizing l placed with
  | zero => simp [drive] at h
  | succ n ih =>
    rw [List.replicate_succ] at h
    rcases drive_nextToken_cases h with ⟨l', hn, rfl, rfl⟩ | ⟨e, l', hn, rfl, rfl⟩ |
      ⟨k, l', rest, hn, rfl, hrest⟩
    · rw [placedTokens_of_none hn]
      rfl
    · rw [placedTokens_of_error hn]
      rfl
    · rw [placedTokens_of_token hn, ih hrest]
      cases outcome <;> rfl

/-- At the end of the text, or inside a character, every call finds the end. -/
theorem drive_of_rest_nil (hr : l.cursor.rest = []) (h : l.drive calls = (placed, some outcome)) :
    placed = [] ∧ outcome = .ok l.position := by
  induction calls generalizing l with
  | nil => simp [drive] at h
  | cons call calls ih =>
    cases call with
    | withBlanks keepBlanks => exact ih (l := l.withBlanks keepBlanks) hr h
    | nextToken =>
      have hstop := (Run.done (nextToken_of_rest_nil hr)).stop_eq
      rw [hr] at hstop
      rw [drive_of_none (nextToken_of_rest_nil hr), hstop] at h
      obtain ⟨rfl, ho⟩ := Prod.mk.inj h
      exact ⟨rfl, (Option.some.inj ho).symm⟩

end Lexer

theorem scan_of_drive {text : Text} {start : Nat} (hs : text.CanStart start) (keepBlanks : Bool)
    {n : Nat} {placed : List PlacedToken} {outcome : Except ScanError Nat}
    (h : ((Lexer.ofOffset text start).withBlanks keepBlanks).drive (List.replicate n .nextToken) =
      (placed, some outcome)) :
    scan text start keepBlanks = outcome.map (⟨placed.map (·.token), ·⟩) := by
  rw [scan, if_pos hs, Lexer.placedTokens_of_drive h]
  cases outcome <;> rfl

end Smalltalk
