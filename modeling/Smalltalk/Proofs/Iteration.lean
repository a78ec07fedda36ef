import Smalltalk.Proofs.Calls

/-! # Asking a lexer for one item after another

`Lexer.next` gives the tokens of a text one by one, then the error if there is one, and then
nothing. It shares the lexer with `Lexer.nextToken` and with the switch for blanks, so these may be
used in between.

* `Lexer.Yields`: the items that `next` gives are a given list, and nothing comes after it.
* `Lexer.yields_of_drive`: the items are the tokens that `nextToken` finds, and its error.
* `Lexer.serve_moves`: all that a request does to the place of a lexer.
* `Lexer.Spent.next`, `Lexer.Spent.serve`: a lexer that has given nothing once is spent, and no
  request changes that.
* `next_yields_scan`: hence the items are those of the scan, they are no more than the bytes of the
  text, and nothing is followed by nothing. -/

namespace Smalltalk

theorem Text.length_fromByte_le_sub (t : Text) (n : Nat) :
    (t.fromByte n).length ≤ t.byteLength - n := by
  unfold Text.fromByte
  rcases hd : t.dropBytes? n with _ | r
  · exact Nat.zero_le _
  · obtain ⟨front, rfl, rfl⟩ := Text.dropBytes?_eq_some_iff.mp hd
    have hlen := r.length_le_byteLength
    rw [Option.getD_some, Text.byteLength_append]
    omega

namespace Lexer

/-! ### Items -/

/-- The item that `next` gives after `n` others. -/
def item (l : Lexer) : Nat → Option (Except ScanError Token)
  | 0 => l.next.1
  | n + 1 => l.next.2.item n

/-- **The items that `next` gives, one call after another,** are those of the list, and after them
nothing. -/
def Yields (l : Lexer) (items : List (Except ScanError Token)) : Prop :=
  ∀ n, l.item n = items[n]?

theorem yields_cons {l l' : Lexer} {x : Except ScanError Token}
    {items : List (Except ScanError Token)} (h : l.next = (some x, l')) (hl : l'.Yields items) :
    l.Yields (x :: items) := by
  intro n
  cases n with
  | zero => rw [item, h]; rfl
  | succ n => rw [item, h, List.getElem?_cons_succ]; exact hl n

/-- After an error `next` gives nothing. -/
theorem next_of_failed {l : Lexer} (h : l.failed = true) : l.next = (none, l) := if_pos h

/-- Before that, `next` gives what `nextToken` finds. -/
theorem next_of_not_failed {l : Lexer} (h : l.failed = false) :
    l.next = match l.nextToken with
      | (.ok none, l') => (none, l')
      | (.ok (some k), l') => (some (.ok k), l')
      | (.error e, l') => (some (.error e), { l' with failed := true }) := by
  rw [next, h]
  rfl

theorem failed_nextToken (l : Lexer) : l.nextToken.2.failed = l.failed := by
  rcases nextToken_cases l with ⟨-, hn⟩ | ⟨c, t, -, ⟨k, -, hn⟩ | ⟨e, -, hn⟩⟩ <;> rw [hn] <;> rfl

/-! ### Lexers that give nothing more -/

/-- The lexer has given an error, or nothing is left to read. -/
def Spent (l : Lexer) : Prop := l.failed = true ∨ l.cursor.rest = []

/-- What is done with a lexer: ask for the next item, ask for the next token, or switch tokens for
blanks on or off. -/
inductive Request where
  | next
  | nextToken
  | withBlanks (keepBlanks : Bool)
  deriving DecidableEq

/-- The lexer after a request. -/
def serve (l : Lexer) : Request → Lexer
  | .next => l.next.2
  | .nextToken => l.nextToken.2
  | .withBlanks keepBlanks => l.withBlanks keepBlanks

/-- The lexer after several requests. -/
def serveAll (l : Lexer) (requests : List Request) : Lexer := requests.foldl serve l

/-- **A request moves the lexer to a token and past some characters,** or not at all. -/
theorem serve_moves (l : Lexer) (r : Request) :
    ((l.serve r).cursor = l.cursor ∧ (l.serve r).tokenStart = l.tokenStart) ∨
      ∃ n, (l.serve r).cursor = l.tokenCursor.advanceBy n ∧
        (l.serve r).tokenStart = l.tokenCursor.position := by
  have hmoved : ∃ n, l.nextToken.2 = l.moved n := by
    rcases nextToken_cases l with ⟨-, hn⟩ | ⟨c, t, -, ⟨k, -, hn⟩ | ⟨e, -, hn⟩⟩ <;>
      exact ⟨_, congrArg Prod.snd hn⟩
  obtain ⟨n, hn⟩ := hmoved
  cases r with
  | next =>
    cases hf : l.failed with
    | true => exact Or.inl ⟨by rw [serve, next_of_failed hf], by rw [serve, next_of_failed hf]⟩
    | false =>
      rw [serve, next_of_not_failed hf]
      rcases ht : l.nextToken with ⟨e | _ | k, l'⟩ <;> rw [ht] at hn <;> subst hn <;>
        exact Or.inr ⟨n, rfl, rfl⟩
  | nextToken => exact Or.inr ⟨n, by rw [serve, hn]; rfl, by rw [serve, hn]; rfl⟩
  | withBlanks keepBlanks => exact Or.inl ⟨rfl, rfl⟩

/-- What every request keeps is kept by all of them. -/
theorem serveAll_induction {motive : Lexer → Prop} {l : Lexer} (h : motive l)
    (hserve : ∀ l r, motive l → motive (l.serve r)) (requests : List Request) :
    motive (l.serveAll requests) := by
  induction requests generalizing l with
  | nil => exact h
  | cons r requests ih => exact ih (hserve l r h)

theorem source_serve (l : Lexer) (r : Request) : (l.serve r).cursor.source = l.cursor.source := by
  rcases l.serve_moves r with ⟨hc, -⟩ | ⟨n, hc, -⟩
  · rw [hc]
  · rw [hc, Cursor.source_advanceBy, source_tokenCursor]

theorem source_serveAll (l : Lexer) (requests : List Request) :
    (l.serveAll requests).cursor.source = l.cursor.source :=
  serveAll_induction (motive := (·.cursor.source = l.cursor.source)) rfl
    (fun l r h => (l.source_serve r).trans h) requests

theorem rest_of_nextToken_none {l l' : Lexer} (h : l.nextToken = (.ok none, l')) :
    l'.cursor.rest = [] := by
  rcases nextToken_cases l with ⟨hr, hn⟩ | ⟨c, t, -, ⟨k, -, hn⟩ | ⟨e, -, hn⟩⟩
  · rw [hn] at h
    obtain ⟨-, rfl⟩ := Prod.mk.inj h
    exact hr
  · simp [hn] at h
  · simp [hn] at h

theorem spent_of_next {l : Lexer} (h : l.next.1 = none) : l.next.2.Spent := by
  cases hf : l.failed with
  | true =>
    rw [next_of_failed hf]
    exact Or.inl hf
  | false =>
    rw [next_of_not_failed hf] at h ⊢
    rcases hn : l.nextToken with ⟨e | _ | k, l'⟩ <;> rw [hn] at h
    · cases h
    · exact Or.inr (rest_of_nextToken_none hn)
    · cases h

/-- **A spent lexer gives nothing.** -/
theorem Spent.next {l : Lexer} (h : l.Spent) : l.next.1 = none := by
  cases hf : l.failed with
  | true => rw [next_of_failed hf]
  | false =>
    have hr : l.cursor.rest = [] := h.resolve_left (by rw [hf]; exact Bool.false_ne_true)
    rw [next_of_not_failed hf, nextToken_of_rest_nil hr]

theorem Spent.nextToken {l : Lexer} (h : l.Spent) : l.nextToken.2.Spent := by
  rcases h with hf | hr
  · exact Or.inl ((failed_nextToken l).trans hf)
  · have hn := nextToken_of_rest_nil hr
    rw [hn]
    exact Or.inr (rest_of_nextToken_none hn)

/-- **A spent lexer stays spent,** whatever is asked of it. -/
theorem Spent.serve {l : Lexer} (h : l.Spent) (r : Request) : (l.serve r).Spent := by
  cases r with
  | next => exact spent_of_next h.next
  | nextToken => exact h.nextToken
  | withBlanks keepBlanks => exact h

theorem Spent.serveAll {l : Lexer} (h : l.Spent) (requests : List Request) :
    (l.serveAll requests).Spent :=
  serveAll_induction h (fun _ r h => h.serve r) requests

theorem Spent.item {l : Lexer} (h : l.Spent) (n : Nat) : l.item n = none := by
  induction n generalizing l with
  | zero => exact h.next
  | succ n ih => exact ih (h.serve .next)

theorem yields_nil {l : Lexer} (h : l.next.1 = none) : l.Yields [] := by
  intro n
  cases n with
  | zero => exact h
  | succ n => exact (spent_of_next h).item n

/-! ### Items and tokens -/

/-- What `next` gives at the end of a run: the error, if there is one. -/
def lastItem : Except ScanError Nat → List (Except ScanError Token)
  | .ok _ => []
  | .error e => [.error e]

/-- **The items are the tokens that `nextToken` finds,** and its error if it meets one. -/
theorem yields_of_drive {l : Lexer} {n : Nat} {placed : List PlacedToken}
    {outcome : Except ScanError Nat} (hl : l.failed = false)
    (h : l.drive (List.replicate n .nextToken) = (placed, some outcome)) :
    l.Yields (placed.map (.ok ·.token) ++ lastItem outcome) := by
  induction n generalizing l placed with
  | zero => simp [drive] at h
  | succ n ih =>
    rw [List.replicate_succ] at h
    have hnext := next_of_not_failed hl
    rcases drive_nextToken_cases h with ⟨l', hn, rfl, rfl⟩ | ⟨e, l', hn, rfl, rfl⟩ |
      ⟨k, l', rest, hn, rfl, hrest⟩
    · rw [hn] at hnext
      exact yields_nil (by rw [hnext])
    · rw [hn] at hnext
      have hspent : Spent { l' with failed := true } := Or.inl rfl
      exact yields_cons hnext (yields_nil hspent.next)
    · rw [hn] at hnext
      have hl' : l'.failed = false := by
        have hf := failed_nextToken l
        rw [hn] at hf
        exact hf.trans hl
      exact yields_cons hnext (ih hl' hrest)

/-- Every token takes at least one character. -/
theorem length_drive_le (l : Lexer) (calls : List Call) :
    (l.drive calls).1.length ≤ l.cursor.rest.length := by
  induction calls generalizing l with
  | nil => exact Nat.zero_le _
  | cons call calls ih =>
    cases call with
    | withBlanks keepBlanks => exact ih (l.withBlanks keepBlanks)
    | nextToken =>
      rcases hn : l.nextToken with ⟨e | _ | k, l'⟩
      · rw [drive_of_error hn]
        exact Nat.zero_le _
      · rw [drive_of_none hn]
        exact Nat.zero_le _
      · have hlt := rest_length_lt hn
        have hle := ih l'
        rw [drive_of_token hn, List.length_cons]
        omega

end Lexer

/-! ### Items and scans -/

theorem exists_drive_of_canStart {text : Text} {start : Nat} (hs : text.CanStart start)
    (keepBlanks : Bool) :
    ∃ n placed outcome, ((Lexer.ofOffset text start).withBlanks keepBlanks).drive
        (List.replicate n .nextToken) = (placed, some outcome) ∧
      scan text start keepBlanks = outcome.map (⟨placed.map (·.token), ·⟩) := by
  let n := ((Lexer.ofOffset text start).withBlanks keepBlanks).cursor.rest.length + 1
  have hcount : ((Lexer.ofOffset text start).withBlanks keepBlanks).cursor.rest.length <
      (List.replicate n Lexer.Call.nextToken).count .nextToken := by
    rw [List.count_replicate_self]
    exact Nat.lt_succ_self _
  obtain ⟨placed, outcome, hd⟩ := Lexer.exists_drive_outcome hcount
  exact ⟨n, placed, outcome, hd, scan_of_drive hs keepBlanks hd⟩

/-- **The items are those of the scan.** If a scan succeeds, `next` gives its tokens in order and
then nothing; if it fails, `next` gives the tokens that are found before, then the error once, and
then nothing. There are no more tokens than bytes from the start on. However `next`, `nextToken` and
the switch for blanks are mixed, once `next` has given nothing it never gives anything again. -/
theorem next_yields_scan :
    (∀ (text : Text) (start : Nat) (keepBlanks : Bool), text.CanStart start →
      (∀ result, scan text start keepBlanks = .ok result →
        ((Lexer.ofOffset text start).withBlanks keepBlanks).Yields (result.tokens.map .ok) ∧
        result.tokens.length ≤ text.byteLength - start) ∧
      ∀ e, scan text start keepBlanks = .error e →
        ∃ n placed, ((Lexer.ofOffset text start).withBlanks keepBlanks).drive
            (List.replicate n .nextToken) = (placed, some (.error e)) ∧
          ((Lexer.ofOffset text start).withBlanks keepBlanks).Yields
            (placed.map (.ok ·.token) ++ [.error e]) ∧
          placed.length ≤ text.byteLength - start) ∧
    ∀ (text : Text) (start : Nat) (before after : List Lexer.Request),
      ((Lexer.ofOffset text start).serveAll before).next.1 = none →
        (((Lexer.ofOffset text start).serveAll before).next.2.serveAll after).next.1 = none := by
  refine ⟨fun text start keepBlanks hs => ?_, fun text start before after h => ?_⟩
  · let l := (Lexer.ofOffset text start).withBlanks keepBlanks
    obtain ⟨n, placed, outcome, hd, hscan⟩ := exists_drive_of_canStart hs keepBlanks
    have hyields := Lexer.yields_of_drive (l := l) rfl hd
    have hlen : placed.length ≤ text.byteLength - start := by
      have hle := l.length_drive_le (List.replicate n .nextToken)
      rw [hd] at hle
      exact Nat.le_trans hle (text.length_fromByte_le_sub start)
    rcases outcome with e | stop
    · refine ⟨fun result hr => ?_, fun e' he => ?_⟩
      · rw [hscan] at hr
        cases hr
      · obtain rfl : e = e' := Except.error.inj (hscan.symm.trans he)
        exact ⟨n, placed, hd, hyields, hlen⟩
    · refine ⟨fun result hr => ?_, fun e he => ?_⟩
      · have htokens : placed.map (·.token) = result.tokens :=
          congrArg Scan.tokens (Except.ok.inj (hscan.symm.trans hr))
        rw [← htokens, List.map_map, List.length_map]
        rw [Lexer.lastItem, List.append_nil] at hyields
        exact ⟨hyields, hlen⟩
      · rw [hscan] at he
        cases he
  · exact ((Lexer.spent_of_next h).serveAll after).next

theorem next_yields_scan_unknown_character :
    (scan ('é' :: "a `b".toList) 2 true =
        .ok ⟨[⟨.identifier, ['a']⟩, ⟨.whitespace, [' ']⟩, ⟨.string, ['b']⟩], 6⟩ ∧
      ((Lexer.ofOffset ('é' :: "a `b".toList) 2).withBlanks true).Yields
        [.ok ⟨.identifier, ['a']⟩, .ok ⟨.whitespace, [' ']⟩, .ok ⟨.string, ['b']⟩]) ∧
    (scan "a _ b".toList 0 false = .error ⟨.unknownCharacter '_', 2⟩ ∧
      ∃ n placed, ((Lexer.ofOffset "a _ b".toList 0).withBlanks false).drive
          (List.replicate n .nextToken) = (placed, some (.error ⟨.unknownCharacter '_', 2⟩)) ∧
        ((Lexer.ofOffset "a _ b".toList 0).withBlanks false).Yields
          (placed.map (.ok ·.token) ++ [.error ⟨.unknownCharacter '_', 2⟩]) ∧ placed.length ≤ 5) ∧
    ((Lexer.ofOffset "a _ b".toList 0).serveAll [.nextToken, .next]).next.1 = none ∧
    (((Lexer.ofOffset "a _ b".toList 0).serveAll [.nextToken, .next]).next.2.serveAll
      [.withBlanks true, .nextToken, .next]).next.1 = none := by
  have hs : Text.CanStart ('é' :: "a `b".toList) 2 := by decide
  have hs' : Text.CanStart "a _ b".toList 0 := by decide
  have hok : scan ('é' :: "a `b".toList) 2 true =
      .ok ⟨[⟨.identifier, ['a']⟩, ⟨.whitespace, [' ']⟩, ⟨.string, ['b']⟩], 6⟩ :=
    scan_of_drive (n := 4) hs true rfl
  have herror : scan "a _ b".toList 0 false = .error ⟨.unknownCharacter '_', 2⟩ :=
    scan_of_drive (n := 2) hs' false rfl
  have hnone : ((Lexer.ofOffset "a _ b".toList 0).serveAll [.nextToken, .next]).next.1 = none := rfl
  exact ⟨⟨hok, ((next_yields_scan.1 _ _ _ hs).1 _ hok).1⟩,
    ⟨herror, (next_yields_scan.1 _ _ _ hs').2 _ herror⟩,
    hnone, next_yields_scan.2 _ _ _ _ hnone⟩

end Smalltalk
