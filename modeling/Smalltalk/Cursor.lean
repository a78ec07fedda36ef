import Smalltalk.Text

/-! # A place in a text

A cursor is a byte offset into a text together with what is left to read there. The offset may lie
inside a character or past the end, where nothing is left and no move changes it.

Every move is described by what it does to `Cursor.rest`: `Cursor.rest_advanceBy`,
`Cursor.rest_advanceWhile`; and `Cursor.position_advanceBy` says that the offset grows by the bytes
of what was passed. -/

namespace Smalltalk

/-- A byte offset into a text, with the text that is left there. -/
structure Cursor where
  source : Text
  position : Nat
  rest : Text
  rest_eq : rest = source.fromByte position

namespace Cursor

/-- The cursor at byte offset `position` of `source`. -/
def ofOffset (source : Text) (position : Nat) : Cursor :=
  ⟨source, position, source.fromByte position, rfl⟩

/-- The character `n` characters ahead; `0` is the current one. -/
def peek? (c : Cursor) (n : Nat) : Option Char := c.rest[n]?

/-- The character `n` characters ahead exists and is in the class `p`. -/
def peekIs (c : Cursor) (n : Nat) (p : Char → Bool) : Bool := (c.peek? n).any p

/-- Moves past the current character, if there is one. -/
def advance (c : Cursor) : Cursor :=
  match h : c.rest with
  | [] => c
  | x :: xs =>
    ⟨c.source, c.position + x.utf8Size, xs, by
      have h' : c.source.fromByte c.position = [x] ++ xs := by rw [← c.rest_eq, h]; rfl
      simpa using (Text.fromByte_add h' (by simp)).symm⟩

/-- Moves past `n` characters, or to the end. -/
def advanceBy (c : Cursor) : Nat → Cursor
  | 0 => c
  | n + 1 => if c.rest = [] then c else c.advance.advanceBy n

/-- Moves past the longest run of characters of the class `p`. -/
def advanceWhile (c : Cursor) (p : Char → Bool) : Cursor :=
  c.advanceBy (c.rest.takeWhile p).length

/-- Moves past the current character if it is `x`, and tells whether it was. -/
def accept (c : Cursor) (x : Char) : Cursor × Bool :=
  if c.peek? 0 = some x then (c.advance, true) else (c, false)

/-- The text from byte offset `start` up to the cursor, if both ends are character boundaries of the
text in that order; a cursor past the end stands for the end. -/
def sliceFrom? (c : Cursor) (start : Nat) : Option Text :=
  c.source.slice? start (min c.position c.source.byteLength)

/-! ### What a move does -/

@[simp] theorem source_advance (c : Cursor) : c.advance.source = c.source := by
  unfold advance; split <;> rfl

@[simp] theorem rest_advance (c : Cursor) : c.advance.rest = c.rest.tail := by
  unfold advance; split <;> simp_all

@[simp] theorem position_advance (c : Cursor) :
    c.advance.position = c.position + Text.byteLength (c.rest.take 1) := by
  unfold advance; split <;> simp_all

@[simp] theorem source_advanceBy (c : Cursor) (n : Nat) : (c.advanceBy n).source = c.source := by
  induction n generalizing c with
  | zero => rfl
  | succ n ih =>
    rw [advanceBy]
    split
    · rfl
    · rw [ih, source_advance]

@[simp] theorem rest_advanceBy (c : Cursor) (n : Nat) : (c.advanceBy n).rest = c.rest.drop n := by
  induction n generalizing c with
  | zero => rfl
  | succ n ih =>
    rw [advanceBy]
    split
    · rename_i h; simp [h]
    · rw [ih, rest_advance, List.drop_tail]

/-- The offset grows by the bytes of what was passed. -/
@[simp] theorem position_advanceBy (c : Cursor) (n : Nat) :
    (c.advanceBy n).position = c.position + Text.byteLength (c.rest.take n) := by
  induction n generalizing c with
  | zero => simp [advanceBy]
  | succ n ih =>
    rw [advanceBy]
    split
    · rename_i h; simp [h]
    · rw [ih, position_advance, rest_advance]
      cases c.rest with
      | nil => simp
      | cons x xs => simp [Nat.add_assoc]

@[simp] theorem rest_advanceWhile (c : Cursor) (p : Char → Bool) :
    (c.advanceWhile p).rest = c.rest.dropWhile p := by
  rw [advanceWhile, rest_advanceBy, Text.drop_length_takeWhile]

end Cursor

end Smalltalk
