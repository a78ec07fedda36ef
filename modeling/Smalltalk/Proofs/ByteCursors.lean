import Smalltalk.Proofs.Positions
import Smalltalk.Proofs.Tiling

/-! # Reading a text by its bytes

A cursor holds the characters that are left. A cursor on bytes holds nothing but the UTF-8 form and
an offset: it decodes the characters that it looks at, and where all bytes up to that place are
ASCII it takes the byte there for the character. It asks of an offset only whether a character
starts there, and a slice between two offsets where none does is out of range.

On the bytes of a text both do the same, `Cursor.toBytes`, since a byte below 128 is a character of
its own and every other character starts with a byte that occurs nowhere inside of one.

* `Text.ofUtf8_utf8`, `Text.startsChar_utf8`, `Text.sliceBytes?_utf8`: bytes are decoded, told apart
  and sliced as the characters are. `Text.isSome_sliceBytes?_utf8`: which slices are in range.
* `Cursor.peek?_toBytes`: looking ahead, on the short way too.
* `Cursor.move_toBytes`: **every move is the same.**
* `Cursor.sliceFrom?_moveAll`: what was passed since an offset is the slice from there.
* `byteCursor_simulates`: a cursor on bytes is a list of characters. -/

namespace Smalltalk

/-! ### Decoding -/

namespace Text

variable {t : Text} {n : Nat}

/-- The character at the front of UTF-8 bytes. -/
def firstChar? (bytes : List UInt8) : Option Char := bytes.toByteArray.utf8DecodeChar? 0

theorem ne_nil_of_firstChar? {bytes : List UInt8} {c : Char} (h : firstChar? bytes = some c) :
    bytes ≠ [] := by
  have hlt := ByteArray.lt_size_of_isSome_utf8DecodeChar? (Option.isSome_iff_exists.mpr ⟨c, h⟩)
  rw [List.size_toByteArray] at hlt
  exact List.length_pos_iff.mp hlt

/-- The characters of UTF-8 bytes. -/
def ofUtf8 (bytes : List UInt8) : Text :=
  match _h : firstChar? bytes with
  | none => []
  | some c => c :: ofUtf8 (bytes.drop c.utf8Size)
termination_by bytes.length
decreasing_by
  have hpos := List.length_pos_iff.mpr (ne_nil_of_firstChar? _h)
  have hsize := c.utf8Size_pos
  rw [List.length_drop]
  omega

/-- A character starts at byte `n`, or the bytes end there. -/
def startsChar (bytes : List UInt8) (n : Nat) : Bool :=
  n = bytes.length || bytes[n]?.any fun b => b.IsUTF8FirstByte

/-- The bytes between two offsets, if both are offsets of characters, in that order. -/
def sliceBytes? (bytes : List UInt8) (start stop : Nat) : Option (List UInt8) :=
  if start ≤ stop ∧ startsChar bytes start ∧ startsChar bytes stop then
    some ((bytes.drop start).take (stop - start))
  else none

theorem utf8_cons (c : Char) (t : Text) : utf8 (c :: t) = String.utf8EncodeChar c ++ utf8 t := rfl

theorem firstChar?_utf8_cons (c : Char) (t : Text) : firstChar? (utf8 (c :: t)) = some c := by
  rw [firstChar?, utf8_cons, List.toByteArray_append]
  exact ByteArray.utf8DecodeChar?_utf8EncodeChar_append

/-- **The bytes of a text are decoded to its characters.** -/
@[simp] theorem ofUtf8_utf8 (t : Text) : ofUtf8 t.utf8 = t := by
  induction t with
  | nil =>
    have hnone : firstChar? (utf8 []) = none :=
      Option.eq_none_iff_forall_ne_some.mpr fun c hc => ne_nil_of_firstChar? hc rfl
    rw [ofUtf8]
    split
    · rfl
    · next h => simp [hnone] at h
  | cons c t ih =>
    have hsome := firstChar?_utf8_cons c t
    rw [ofUtf8]
    split
    · next h => simp [hsome] at h
    · next d h =>
      obtain rfl : c = d := Option.some.inj (hsome.symm.trans h)
      rw [utf8_cons, ← String.length_utf8EncodeChar, List.drop_left, ih]

/-- **The offsets where characters start** are the boundaries of the text. -/
theorem startsChar_utf8 (t : Text) (n : Nat) : startsChar t.utf8 n = true ↔ t.IsBoundary n := by
  induction t generalizing n with
  | nil =>
    rcases Nat.eq_zero_or_pos n with rfl | hn
    · exact ⟨fun _ => isBoundary_zero [], fun _ => rfl⟩
    · simp [startsChar, utf8, IsBoundary, dropBytes?_nil hn.ne', hn.ne']
  | cons c t ih =>
    have hlength := String.length_utf8EncodeChar c
    have hsize := c.utf8Size_pos
    rcases Nat.eq_zero_or_pos n with rfl | hn
    · refine iff_of_true ?_ (isBoundary_zero _)
      have hfirst : (String.utf8EncodeChar c)[0].IsUTF8FirstByte :=
        UInt8.isUTF8FirstByte_getElem_utf8EncodeChar.mpr rfl
      rw [startsChar, utf8_cons, List.getElem?_append_left (by omega),
        List.getElem?_eq_getElem (by omega)]
      simp [hfirst]
    rw [IsBoundary, dropBytes?_cons c t hn.ne', startsChar, utf8_cons, List.length_append]
    split
    · next hle =>
      have hstep := ih (n - c.utf8Size)
      rw [startsChar, IsBoundary] at hstep
      rw [← hstep, List.getElem?_append_right (by omega), hlength]
      have hend : n = c.utf8Size + (utf8 t).length ↔ n - c.utf8Size = (utf8 t).length := by omega
      simp [hend]
    · next hlt =>
      -- only the first byte of a character looks like one
      have hinside : ¬ (String.utf8EncodeChar c)[n].IsUTF8FirstByte := by
        rw [UInt8.isUTF8FirstByte_getElem_utf8EncodeChar]
        exact hn.ne'
      rw [List.getElem?_append_left (by omega), List.getElem?_eq_getElem (by omega)]
      simp [hinside]
      omega

theorem drop_utf8 {r : Text} (h : t.dropBytes? n = some r) : t.utf8.drop n = r.utf8 := by
  obtain ⟨front, rfl, rfl⟩ := dropBytes?_eq_some_iff.mp h
  rw [utf8_append, ← length_utf8, List.drop_left]

/-- Where the text can be cut in two, its front part can be taken. -/
theorem takeBytes?_isSome_iff (t : Text) (n : Nat) : (t.takeBytes? n).isSome ↔ t.IsBoundary n := by
  rw [IsBoundary, Option.isSome_iff_exists, Option.isSome_iff_exists]
  constructor
  · rintro ⟨w, hw⟩
    obtain ⟨back, rfl⟩ := takeBytes?_isPrefix hw
    exact ⟨back, dropBytes?_eq_some_iff.mpr ⟨w, rfl, byteLength_of_takeBytes? hw⟩⟩
  · rintro ⟨back, hback⟩
    obtain ⟨w, rfl, rfl⟩ := dropBytes?_eq_some_iff.mp hback
    exact ⟨w, takeBytes?_append w back⟩

/-- **Slices of the bytes** are the bytes of slices, and out of range where these are. -/
theorem sliceBytes?_utf8 (t : Text) (start stop : Nat) :
    sliceBytes? t.utf8 start stop = (t.slice? start stop).map utf8 := by
  unfold sliceBytes? slice?
  by_cases hle : start ≤ stop
  · obtain ⟨k, rfl⟩ := Nat.exists_eq_add_of_le hle
    rcases hdrop : t.dropBytes? start with _ | r
    · have hno : ¬ startsChar t.utf8 start = true := by
        rw [startsChar_utf8, IsBoundary, hdrop]
        exact Bool.false_ne_true
      simp [hno]
    have hstart : startsChar t.utf8 start = true := by
      rw [startsChar_utf8, IsBoundary, hdrop]
      rfl
    have hstop : startsChar t.utf8 (start + k) = true ↔ (r.takeBytes? k).isSome := by
      obtain ⟨front, rfl, rfl⟩ := dropBytes?_eq_some_iff.mp hdrop
      rw [startsChar_utf8, takeBytes?_isSome_iff, IsBoundary, dropBytes?_append, IsBoundary]
    rw [if_pos hle, drop_utf8 hdrop, Option.bind_some, Nat.add_sub_cancel_left]
    rcases htake : r.takeBytes? k with _ | w <;> rw [htake] at hstop
    · rw [if_neg fun h => Bool.false_ne_true (hstop.mp h.2.2)]
      rfl
    · obtain ⟨back, rfl⟩ := takeBytes?_isPrefix htake
      rw [if_pos ⟨hle, hstart, hstop.mpr rfl⟩, utf8_append, ← byteLength_of_takeBytes? htake,
        ← length_utf8, List.take_left]
      rfl
  · simp [hle]

/-- **A slice is in range** if its ends are in order, not past the end and between characters. -/
theorem isSome_sliceBytes?_utf8 (t : Text) (start stop : Nat) :
    (sliceBytes? t.utf8 start stop).isSome ↔
      start ≤ stop ∧ stop ≤ t.byteLength ∧ t.IsBoundary start ∧ t.IsBoundary stop := by
  unfold sliceBytes?
  rw [Option.isSome_ite, startsChar_utf8, startsChar_utf8]
  refine and_congr_right fun _ => ⟨fun h => ⟨?_, h⟩, And.right⟩
  obtain ⟨back, hback⟩ := Option.isSome_iff_exists.mp h.2
  obtain ⟨front, rfl, rfl⟩ := dropBytes?_eq_some_iff.mp hback
  rw [byteLength_append]
  exact Nat.le_add_right ..

/-- A byte below 128 is a character of its own. -/
theorem utf8EncodeChar_of_lt {c : Char} {b : UInt8} (hb : (String.utf8EncodeChar c).head? = some b)
    (hlt : b < 128) : String.utf8EncodeChar c = [b] ∧ c = Char.ofUInt8 b := by
  have hbyte : b.toNat < 128 := hlt
  simp only [String.utf8EncodeChar] at hb ⊢
  split_ifs at hb ⊢ with h₁ h₂ h₃
  all_goals
    rw [List.head?_cons, Option.some.injEq] at hb
    subst hb
    rw [UInt8.toNat_ofNat'] at hbyte
  · refine ⟨rfl, Char.toNat_inj.mp ?_⟩
    change c.val.toNat = (UInt8.ofNat c.val.toNat).toUInt32.toNat
    rw [UInt8.toNat_toUInt32, UInt8.toNat_ofNat']
    omega
  · omega
  · omega
  · omega

/-- **The short way:** if all bytes up to one are ASCII, that one is the character as many places
ahead. -/
theorem getElem?_of_ascii {b : UInt8} (hb : t.utf8[n]? = some b)
    (hascii : (t.utf8.take (n + 1)).all (· < 128) = true) : t[n]? = some (Char.ofUInt8 b) := by
  induction t generalizing n with
  | nil => simp [utf8] at hb
  | cons c t ih =>
    rw [utf8_cons] at hb hascii
    obtain ⟨d, ds, hd⟩ := List.exists_cons_of_ne_nil (l := String.utf8EncodeChar c) (by
      rw [← List.length_pos_iff, String.length_utf8EncodeChar]
      exact c.utf8Size_pos)
    -- the first byte is ASCII, so it is the whole first character
    rw [hd, List.cons_append, List.take_succ_cons, List.all_cons, Bool.and_eq_true] at hascii
    obtain ⟨hc, rfl⟩ := utf8EncodeChar_of_lt (by rw [hd]; rfl) (of_decide_eq_true hascii.1)
    obtain rfl : ds = [] := by simpa [hd] using hc
    rw [hd] at hb
    cases n with
    | zero =>
      obtain rfl : d = b := by simpa using hb
      rfl
    | succ n => exact ih hb hascii.2

end Text

/-! ### The cursor -/

/-- A byte offset into UTF-8 bytes. -/
structure ByteCursor where
  bytes : List UInt8
  position : Nat

namespace ByteCursor

/-- The cursor at byte offset `position` of `text`. -/
def ofOffset (text : Text) (position : Nat) : ByteCursor := ⟨text.utf8, position⟩

/-- The bytes that are left; none inside a character or past the end. -/
def remaining (c : ByteCursor) : List UInt8 :=
  if Text.startsChar c.bytes c.position then c.bytes.drop c.position else []

/-- The character `n` characters ahead. Where all bytes up to the one `n` ahead are ASCII, it is
this byte; otherwise the bytes are decoded. -/
def peek? (c : ByteCursor) (n : Nat) : Option Char :=
  match c.remaining[n]? with
  | some b =>
    if (c.remaining.take (n + 1)).all (· < 128) then some (Char.ofUInt8 b)
    else (Text.ofUtf8 c.remaining)[n]?
  | none => (Text.ofUtf8 c.remaining)[n]?

/-- Moves past the current character, if there is one. -/
def advance (c : ByteCursor) : ByteCursor :=
  match c.peek? 0 with
  | none => c
  | some x => { c with position := c.position + x.utf8Size }

/-- Moves on `n` times. -/
def advanceBy (c : ByteCursor) : Nat → ByteCursor
  | 0 => c
  | n + 1 => c.advance.advanceBy n

/-- Moves past the current character if it is `x`, and tells whether it was. -/
def accept (c : ByteCursor) (x : Char) : ByteCursor × Bool :=
  if c.peek? 0 = some x then (c.advance, true) else (c, false)

theorem remaining_ne_nil {c : ByteCursor} {n : Nat} {x : Char} (h : c.peek? n = some x) :
    c.remaining ≠ [] := by
  intro hnil
  have hnone : Text.ofUtf8 [] = [] := Text.ofUtf8_utf8 []
  simp [peek?, hnil, hnone] at h

/-- The number of bytes behind the offset. -/
def bytesLeft (c : ByteCursor) : Nat := c.bytes.length - c.position

/-- Past a character there is less left. -/
theorem bytesLeft_advance_lt {c : ByteCursor} {x : Char} (h : c.peek? 0 = some x) :
    c.advance.bytesLeft < c.bytesLeft := by
  have hlt : c.position < c.bytes.length := by
    have hne := remaining_ne_nil h
    unfold remaining at hne
    split at hne
    · exact Nat.lt_of_not_le (List.drop_eq_nil_iff.not.mp hne)
    · exact absurd rfl hne
  have hsize := x.utf8Size_pos
  simp only [bytesLeft, advance, h]
  omega

theorem bytesLeft_advance_le (c : ByteCursor) : c.advance.bytesLeft ≤ c.bytesLeft := by
  rcases h : c.peek? 0 with _ | x
  · simp [advance, h]
  · exact (bytesLeft_advance_lt h).le

/-- Moves on as long as the current character is in the class `p`. -/
def advanceWhile (c : ByteCursor) (p : Char → Bool) : ByteCursor :=
  if _h : (c.peek? 0).any p then c.advance.advanceWhile p else c
termination_by c.bytesLeft
decreasing_by
  obtain ⟨x, hx, -⟩ := (Option.any_eq_true ..).mp _h
  exact bytesLeft_advance_lt hx

theorem bytesLeft_advanceWhile_le (c : ByteCursor) (p : Char → Bool) :
    (c.advanceWhile p).bytesLeft ≤ c.bytesLeft := by
  fun_induction advanceWhile c p with
  | case1 c h ih => exact ih.trans c.bytesLeft_advance_le
  | case2 c h => exact le_rfl

/-- A run of a class that is not empty leaves less. -/
theorem bytesLeft_advanceWhile_lt {c : ByteCursor} {x : Char} {p : Char → Bool}
    (h : c.peek? 0 = some x) (hp : p x = true) : (c.advanceWhile p).bytesLeft < c.bytesLeft := by
  rw [advanceWhile, dif_pos (by rw [h]; exact hp)]
  exact (bytesLeft_advanceWhile_le ..).trans_lt (bytesLeft_advance_lt h)

/-- The bytes from an offset up to the cursor; `none` is a slice that is out of range. -/
def sliceFrom? (c : ByteCursor) (start : Nat) : Option (List UInt8) :=
  Text.sliceBytes? c.bytes start (min c.position c.bytes.length)

end ByteCursor

/-! ### Moves -/

/-- What is done with a cursor. -/
inductive Move where
  | advance
  | advanceBy (n : Nat)
  | accept (x : Char)
  | advanceWhile (p : Char → Bool)

namespace Move

/-- The characters that a move passes. -/
def passed : Move → Text → Text
  | advance, t => t.take 1
  | advanceBy n, t => t.take n
  | accept x, t => if t.head? = some x then t.take 1 else []
  | advanceWhile p, t => t.takeWhile p

/-- The characters that a move leaves. -/
def left : Move → Text → Text
  | advance, t => t.tail
  | advanceBy n, t => t.drop n
  | accept x, t => if t.head? = some x then t.tail else t
  | advanceWhile p, t => t.dropWhile p

/-- The characters that several moves pass. -/
def passedAll : List Move → Text → Text
  | [], _ => []
  | m :: ms, t => m.passed t ++ passedAll ms (m.left t)

theorem passed_append_left (m : Move) (t : Text) : m.passed t ++ m.left t = t := by
  have htail : t.take 1 ++ t.tail = t := by rw [← List.drop_one, List.take_append_drop]
  cases m with
  | advance => exact htail
  | advanceBy n => exact List.take_append_drop n t
  | accept x =>
    unfold passed left
    dsimp only
    split
    · exact htail
    · rfl
  | advanceWhile p => exact List.takeWhile_append_dropWhile

end Move

namespace Cursor

/-- A cursor after a move. -/
def move (c : Cursor) : Move → Cursor
  | .advance => c.advance
  | .advanceBy n => c.advanceBy n
  | .accept x => (c.accept x).1
  | .advanceWhile p => c.advanceWhile p

/-- A cursor after several moves. -/
def moveAll (c : Cursor) (moves : List Move) : Cursor := moves.foldl move c

variable (c : Cursor)

theorem source_move (m : Move) : (c.move m).source = c.source := by
  cases m with
  | advance => exact source_advance c
  | advanceBy n => exact source_advanceBy c n
  | accept x =>
    unfold move accept
    dsimp only
    split
    · exact source_advance c
    · rfl
  | advanceWhile p => exact source_advanceBy c _

/-- **What a move leaves and by how much it moves.** -/
theorem move_eq (m : Move) : (c.move m).rest = m.left c.rest ∧
    (c.move m).position = c.position + (m.passed c.rest).byteLength := by
  cases m with
  | advance => exact ⟨rest_advance c, position_advance c⟩
  | advanceBy n => exact ⟨rest_advanceBy c n, position_advanceBy c n⟩
  | accept x =>
    unfold move accept peek? Move.left Move.passed
    simp only [List.head?_eq_getElem?]
    split
    · exact ⟨rest_advance c, position_advance c⟩
    · exact ⟨rfl, rfl⟩
  | advanceWhile p => exact ⟨rest_advanceWhile c p, position_advanceWhile c p⟩

/-- **What several moves pass** stands in front of what they leave, and they move by its bytes. -/
theorem moveAll_eq (moves : List Move) : (c.moveAll moves).source = c.source ∧
    c.rest = Move.passedAll moves c.rest ++ (c.moveAll moves).rest ∧
    (c.moveAll moves).position = c.position + (Move.passedAll moves c.rest).byteLength := by
  induction moves generalizing c with
  | nil => exact ⟨rfl, rfl, rfl⟩
  | cons m moves ih =>
    obtain ⟨hsource, hrest, hposition⟩ := ih (c.move m)
    obtain ⟨hleft, hmoved⟩ := c.move_eq m
    rw [hleft] at hrest hposition
    refine ⟨hsource.trans (source_move c m), ?_, ?_⟩
    · change _ = m.passed c.rest ++ Move.passedAll moves (m.left c.rest) ++ _
      rw [List.append_assoc]
      exact (m.passed_append_left c.rest).symm.trans (congrArg (m.passed c.rest ++ ·) hrest)
    · change _ = c.position + (m.passed c.rest ++ Move.passedAll moves (m.left c.rest)).byteLength
      rw [Text.byteLength_append, ← Nat.add_assoc, ← hmoved]
      exact hposition

variable {c}

theorem OnBoundary.moveAll (h : c.OnBoundary) (moves : List Move) :
    (c.moveAll moves).OnBoundary := by
  obtain ⟨hsource, hrest, hposition⟩ := c.moveAll_eq moves
  obtain ⟨front, hfront, hp⟩ := onBoundary_iff.mp h
  refine onBoundary_iff.mpr ⟨front ++ Move.passedAll moves c.rest, ?_, ?_⟩
  · rw [hsource, hfront, List.append_assoc, ← hrest]
  · rw [Text.byteLength_append, hp, hposition]

/-- **The slice from a boundary** is what was passed since. -/
theorem OnBoundary.sliceFrom?_moveAll (h : c.OnBoundary) (moves : List Move) :
    (c.moveAll moves).sliceFrom? c.position = some (Move.passedAll moves c.rest) := by
  obtain ⟨hsource, hrest, hposition⟩ := c.moveAll_eq moves
  have hend := (h.moveAll moves).position_add
  obtain ⟨front, hfront, hp⟩ := onBoundary_iff.mp h
  rw [hrest] at hfront
  rw [sliceFrom?, Nat.min_eq_left (by omega), hsource, hposition, hfront, ← hp]
  exact Text.slice?_append ..

end Cursor

/-! ### The same moves on bytes -/

namespace ByteCursor

/-- A cursor on bytes after a move. -/
def move (c : ByteCursor) : Move → ByteCursor
  | .advance => c.advance
  | .advanceBy n => c.advanceBy n
  | .accept x => (c.accept x).1
  | .advanceWhile p => c.advanceWhile p

/-- A cursor on bytes after several moves. -/
def moveAll (c : ByteCursor) (moves : List Move) : ByteCursor := moves.foldl move c

end ByteCursor

namespace Cursor

/-- The same place, without the characters that are left. -/
def toBytes (c : Cursor) : ByteCursor := ⟨c.source.utf8, c.position⟩

variable (c : Cursor)

theorem remaining_toBytes : c.toBytes.remaining = c.rest.utf8 := by
  have hrest := c.rest_eq
  unfold Text.fromByte at hrest
  unfold ByteCursor.remaining toBytes
  rcases hdrop : c.source.dropBytes? c.position with _ | r <;> rw [hdrop] at hrest
  · have hno : ¬ Text.startsChar c.source.utf8 c.position = true := by
      rw [Text.startsChar_utf8, Text.IsBoundary, hdrop]
      exact Bool.false_ne_true
    rw [if_neg hno, hrest]
    rfl
  · have hyes : Text.startsChar c.source.utf8 c.position = true := by
      rw [Text.startsChar_utf8, Text.IsBoundary, hdrop]
      rfl
    rw [if_pos hyes, Text.drop_utf8 hdrop, hrest, Option.getD_some]

/-- **Looking ahead is the same,** by single bytes or by decoding. -/
@[simp] theorem peek?_toBytes (n : Nat) : c.toBytes.peek? n = c.peek? n := by
  rw [ByteCursor.peek?, remaining_toBytes, Text.ofUtf8_utf8, peek?]
  split
  · next b hb =>
    split
    · next hascii => exact (Text.getElem?_of_ascii hb hascii).symm
    · rfl
  · rfl

theorem advance_of_rest_nil (h : c.rest = []) : c.advance = c := by
  unfold advance
  split
  · rfl
  · next heq => rw [h] at heq; cases heq

theorem advance_toBytes : c.toBytes.advance = c.advance.toBytes := by
  unfold ByteCursor.advance
  rw [peek?_toBytes, peek?]
  rcases hr : c.rest with _ | ⟨x, t⟩
  · rw [advance_of_rest_nil c hr]
    rfl
  · unfold toBytes
    rw [List.getElem?_cons_zero, source_advance, position_advance, hr]
    rfl

theorem advanceBy_toBytes (n : Nat) : c.toBytes.advanceBy n = (c.advanceBy n).toBytes := by
  induction n generalizing c with
  | zero => rfl
  | succ n ih =>
    rw [ByteCursor.advanceBy, advance_toBytes, ih, advanceBy]
    split
    · next h =>
      -- at the end the cursor on bytes goes on asking, and stays
      rw [advance_of_rest_nil c h]
      cases n with
      | zero => rfl
      | succ n => rw [advanceBy, if_pos h]
    · rfl

theorem accept_toBytes (x : Char) :
    c.toBytes.accept x = ((c.accept x).1.toBytes, (c.accept x).2) := by
  unfold ByteCursor.accept accept
  rw [peek?_toBytes, advance_toBytes]
  split <;> rfl

/-- A run of a class is passed character by character. -/
theorem advanceWhile_eq (p : Char → Bool) :
    c.advanceWhile p = if (c.peek? 0).any p then c.advance.advanceWhile p else c := by
  unfold peek? advanceWhile
  rcases hr : c.rest with _ | ⟨x, t⟩
  · rfl
  · rw [List.getElem?_cons_zero, Option.any_some, List.takeWhile_cons]
    split
    · rw [List.length_cons, advanceBy, if_neg (by rw [hr]; exact List.cons_ne_nil x t),
        rest_advance, hr, List.tail_cons]
    · rfl

theorem advanceWhile_toBytes (p : Char → Bool) :
    c.toBytes.advanceWhile p = (c.advanceWhile p).toBytes := by
  generalize hlen : c.rest.length = n
  induction n generalizing c with
  | zero =>
    rw [ByteCursor.advanceWhile, advanceWhile_eq, peek?_toBytes, peek?,
      List.length_eq_zero_iff.mp hlen]
    rfl
  | succ n ih =>
    rw [ByteCursor.advanceWhile, advanceWhile_eq, peek?_toBytes, advance_toBytes]
    split
    · refine ih c.advance ?_
      rw [rest_advance, List.length_tail, hlen, Nat.add_sub_cancel]
    · rfl

/-- **Every move is the same on bytes.** -/
theorem move_toBytes (m : Move) : c.toBytes.move m = (c.move m).toBytes := by
  cases m with
  | advance => exact advance_toBytes c
  | advanceBy n => exact advanceBy_toBytes c n
  | accept x => exact congrArg Prod.fst (accept_toBytes c x)
  | advanceWhile p => exact advanceWhile_toBytes c p

theorem moveAll_toBytes (moves : List Move) :
    c.toBytes.moveAll moves = (c.moveAll moves).toBytes := by
  induction moves generalizing c with
  | nil => rfl
  | cons m moves ih =>
    change (c.toBytes.move m).moveAll moves = _
    rw [move_toBytes, ih]
    rfl

/-- Slices are the same, and out of range at the same offsets. -/
theorem sliceFrom?_toBytes (start : Nat) :
    c.toBytes.sliceFrom? start = (c.sliceFrom? start).map Text.utf8 := by
  unfold ByteCursor.sliceFrom? sliceFrom? toBytes
  rw [Text.length_utf8, Text.sliceBytes?_utf8]

end Cursor

/-- **A cursor on bytes is a list of characters.** Wherever moves have brought it, let `rest` be the
characters of the text from there, none inside a character or past the end. It sees the characters
of `rest`, a move leaves of them what it should, and the offset grows by the bytes of those that are
passed. The slice from an earlier offset is what was passed since, if the cursor started on a
boundary. The cursor that keeps its characters does the same. -/
theorem byteCursor_simulates (text : Text) (start : Nat) (moves : List Move) :
    let c := (ByteCursor.ofOffset text start).moveAll moves
    let rest := text.fromByte c.position
    (∀ n, c.peek? n = rest[n]?) ∧
    (∀ x, (c.accept x).2 = true ↔ rest.head? = some x) ∧
    (∀ m, text.fromByte (c.move m).position = m.left rest ∧
      (c.move m).position = c.position + (m.passed rest).byteLength) ∧
    (text.IsBoundary start → ∀ earlier later, moves = earlier ++ later →
      let q := ((ByteCursor.ofOffset text start).moveAll earlier).position
      c.sliceFrom? q = some (Move.passedAll later (text.fromByte q)).utf8) ∧
    c = ((Cursor.ofOffset text start).moveAll moves).toBytes ∧
    rest = ((Cursor.ofOffset text start).moveAll moves).rest := by
  intro c rest
  generalize hd : (Cursor.ofOffset text start).moveAll moves = d
  have hc : c = d.toBytes := hd ▸ (Cursor.ofOffset text start).moveAll_toBytes moves
  have hsource : d.source = text := hd ▸ ((Cursor.ofOffset text start).moveAll_eq moves).1
  have hrest (e : Cursor) (he : e.source = text) : text.fromByte e.position = e.rest := by
    rw [e.rest_eq, he]
  have hr : rest = d.rest := (congrArg (text.fromByte ·.position) hc).trans (hrest d hsource)
  rw [hc, hr]
  refine ⟨d.peek?_toBytes, fun x => ?_, fun m => ?_, fun hstart earlier later hsplit => ?_, rfl,
    rfl⟩
  · rw [d.accept_toBytes, List.head?_eq_getElem?]
    unfold Cursor.accept Cursor.peek?
    split <;> simp_all
  · rw [d.move_toBytes, ← (d.move_eq m).1]
    exact ⟨hrest (d.move m) ((d.source_move m).trans hsource), (d.move_eq m).2⟩
  · intro q
    let e := (Cursor.ofOffset text start).moveAll earlier
    have he : e.moveAll later = d := by
      rw [← hd, hsplit]
      exact (List.foldl_append ..).symm
    have hq : q = e.position :=
      congrArg ByteCursor.position ((Cursor.ofOffset text start).moveAll_toBytes earlier)
    have hboundary : e.OnBoundary := (Cursor.onBoundary_ofOffset hstart).moveAll earlier
    rw [hq, d.sliceFrom?_toBytes, ← he, hboundary.sliceFrom?_moveAll later,
      hrest e ((Cursor.ofOffset text start).moveAll_eq earlier).1]
    rfl

/-- Moves over a character of two bytes, seen from a slice in the middle. -/
theorem byteCursor_simulates_two_bytes :
    let text : Text := "aé= b".toList
    let c := (ByteCursor.ofOffset text 0).moveAll [.advance, .advanceBy 2, .accept ' ']
    text.IsBoundary 0 ∧ c.sliceFrom? 1 = some (Text.utf8 "é= ".toList) := by
  intro text c
  have hstart : text.IsBoundary 0 := by decide
  have hposition : ((ByteCursor.ofOffset text 0).moveAll [.advance]).position = 1 :=
    congrArg ByteCursor.position (byteCursor_simulates text 0 [.advance]).2.2.2.2.1
  have hpassed : Move.passedAll [.advanceBy 2, .accept ' '] (text.fromByte 1) = "é= ".toList := by
    decide
  have hslice := (byteCursor_simulates text 0 [.advance, .advanceBy 2, .accept ' ']).2.2.2.1 hstart
    [.advance] [.advanceBy 2, .accept ' '] rfl
  dsimp only at hslice
  rw [hposition, hpassed] at hslice
  exact ⟨hstart, hslice⟩

end Smalltalk
