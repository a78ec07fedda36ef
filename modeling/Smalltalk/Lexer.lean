import Smalltalk.Cursor
import Smalltalk.Lexeme

/-! # The lexer

A lexer walks through a text token by token. Runs of blanks are tokens of their own or are passed
over, as `Lexer.keepBlanks` says. `Lexer.nextToken` may be called again after an error and goes on
from wherever the lexer stands; `Lexer.next` gives nothing more once it has given an error.

* `Lexer.rest_nextToken`: the lexer moves past the blanks it skips and then past what it reads.
* `Lexer.rest_length_lt`: every token makes what is left shorter. -/

namespace Smalltalk

/-- A place in a text, the start of the last token, and how to go on. -/
structure Lexer where
  cursor : Cursor
  tokenStart : Nat
  keepBlanks : Bool := false
  failed : Bool := false

namespace Lexer

/-- The lexer that starts at byte offset `start` of `text`. -/
def ofOffset (text : Text) (start : Nat) : Lexer :=
  { cursor := Cursor.ofOffset text start, tokenStart := start }

/-- The same lexer, with or without tokens for runs of blanks. -/
def withBlanks (l : Lexer) (keepBlanks : Bool) : Lexer := { l with keepBlanks }

/-- The byte offset the lexer stands at. -/
def position (l : Lexer) : Nat := l.cursor.position

/-- The cursor at the first character of the next token. -/
def tokenCursor (l : Lexer) : Cursor :=
  if l.keepBlanks then l.cursor else l.cursor.advanceWhile Char.isWhitespace

/-- **The next token,** nothing at the end of the text, or the error met there. -/
def nextToken (l : Lexer) : Except ScanError (Option Token) × Lexer :=
  let start := l.tokenCursor
  match start.rest with
  | [] => (.ok none, { l with cursor := start, tokenStart := start.position })
  | c :: t =>
    let reading := Reading.ofText c t
    let stop := start.advanceBy reading.lexeme.length
    (match reading.outcome with
      | .ok token => .ok (some token)
      | .error e => .error (e.shift start.position),
      { l with cursor := stop, tokenStart := start.position })

/-- The next token or error, and nothing after an error. -/
def next (l : Lexer) : Option (Except ScanError Token) × Lexer :=
  if l.failed then (none, l)
  else match l.nextToken with
    | (.ok none, l) => (none, l)
    | (.ok (some token), l) => (some (.ok token), l)
    | (.error e, l) => (some (.error e), { l with failed := true })

/-! ### Progress -/

theorem rest_tokenCursor_suffix (l : Lexer) : l.tokenCursor.rest <:+ l.cursor.rest := by
  unfold tokenCursor
  split
  · exact List.suffix_refl _
  · rw [Cursor.rest_advanceWhile]; exact List.dropWhile_suffix _

/-- The lexer moves past the blanks it skips and then past the characters it reads. -/
theorem rest_nextToken {l : Lexer} {c : Char} {t : Text} (h : l.tokenCursor.rest = c :: t) :
    l.nextToken.2.cursor.rest = (c :: t).drop (Reading.ofText c t).lexeme.length := by
  unfold nextToken
  simp only [h]
  rw [Cursor.rest_advanceBy, h]

/-- **Every token makes what is left shorter.** -/
theorem rest_length_lt {l : Lexer} {token : Token} {l' : Lexer}
    (h : l.nextToken = (.ok (some token), l')) :
    l'.cursor.rest.length < l.cursor.rest.length := by
  have hs := (rest_tokenCursor_suffix l).length_le
  cases hr : l.tokenCursor.rest with
  | nil => unfold nextToken at h; simp [hr] at h
  | cons c t =>
    have hrest := rest_nextToken hr
    rw [h] at hrest
    have hok : ∃ k, (Reading.ofText c t).outcome = .ok k := by
      unfold nextToken at h
      simp only [hr] at h
      cases ho : (Reading.ofText c t).outcome with
      | ok k => exact ⟨k, rfl⟩
      | error e => simp [ho] at h
    obtain ⟨k, hk⟩ := hok
    have hlen := List.length_pos_iff.mpr (Reading.lexeme_ne_nil hk)
    have hle := (Reading.lexeme_isPrefix c t).length_le
    rw [hr] at hs
    simp only at hrest
    rw [hrest, List.length_drop]
    omega

end Lexer

end Smalltalk
