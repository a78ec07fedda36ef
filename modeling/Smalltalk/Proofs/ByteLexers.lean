import Smalltalk.Proofs.Blanks
import Smalltalk.Proofs.ByteCursors
import Smalltalk.Proofs.Iteration

/-! # The lexer on bytes

A lexer on bytes looks ahead, moves and takes the slice of what it has moved past, rule by rule and
in loops. A slice that is out of range is no token and no error: the rule gives `none`. So a rule
that gives something has taken all its slices between two characters of the text, in order.

* `ByteLexer.nextToken?`: the next token, by rules that loop and slice.
* `ByteCursor.readToken_toBytes`: **every rule gives what the reading of the characters gives,**
  wherever the lexer stands. The slices start on a boundary because something is left to read there.
* `Lexer.nextToken?_toBytes`, `Lexer.serveAll?_toBytes`: so the lexers are the same, request by
  request.
* `lexer_stays_in_range`: no slice is out of range, whatever is asked and wherever it starts. -/

namespace Smalltalk

/-! ### Rules on bytes -/

/-- A token or an error and the cursor behind it; `none` if a slice is out of range. -/
abbrev ByteReading := Option (Except ScanError Token × ByteCursor)

namespace ByteCursor

/-- A token made of the slice from `start` up to the cursor. -/
def emit (c : ByteCursor) (kind : TokenKind) (start : Nat) : ByteReading :=
  (c.sliceFrom? start).map fun bytes => (.ok ⟨kind, Text.ofUtf8 bytes⟩, c)

/-- A special token of the next `n` characters. -/
def readSpecial (c : ByteCursor) (n start : Nat) : ByteReading :=
  (c.advanceBy n).emit .special start

/-- A fault at `start`, with nothing consumed. -/
def refuse (c : ByteCursor) (fault : ScanFault) (start : Nat) : ByteReading :=
  some (.error ⟨fault, start⟩, c)

/-- A name, sliced before the colon that makes it a parameter. -/
def readName (c : ByteCursor) (start : Nat) : ByteReading :=
  let stop := c.advanceWhile Char.isAlphanum
  (stop.sliceFrom? start).map fun bytes =>
    let (behind, isParameter) := stop.accept ':'
    (.ok ⟨if isParameter then .parameter else .identifier, Text.ofUtf8 bytes⟩, behind)

/-- A block argument, sliced behind its colon. -/
def readBlockArgument (c : ByteCursor) (start : Nat) : ByteReading :=
  match c.peek? 1 with
  | none => c.refuse .trailingColon start
  | some x =>
    if x.isAlpha then
      (c.advance.advanceWhile Char.isAlphanum).emit .blockArgument c.advance.position
    else c.refuse (.unknownCharacter ':') start

/-- A character literal, whose value is not sliced. -/
def readChar (c : ByteCursor) (start : Nat) : ByteReading :=
  match c.peek? 1 with
  | none => c.refuse .trailingDollar start
  | some x => some (.ok ⟨.char, [x]⟩, c.advanceBy 2)

/-- The rest of a string whose value so far is `value`. -/
def readStringFrom (c : ByteCursor) (value : Text) : Text × ByteCursor :=
  match _h : c.peek? 0 with
  | none => (value, c)
  | some x =>
    if x = '\x60' then
      if c.peek? 1 = some '\x60' then (c.advanceBy 2).readStringFrom (value ++ ['\x60'])
      else (value, c.advance)
    else c.advance.readStringFrom (value ++ [x])
termination_by c.bytesLeft
decreasing_by
  · exact (c.advance.bytesLeft_advance_le).trans_lt (bytesLeft_advance_lt _h)
  · exact bytesLeft_advance_lt _h

theorem readStringFrom_eq (c : ByteCursor) (value : Text) : c.readStringFrom value =
    match c.peek? 0 with
    | none => (value, c)
    | some x =>
      if x = '\x60' then
        if c.peek? 1 = some '\x60' then (c.advanceBy 2).readStringFrom (value ++ ['\x60'])
        else (value, c.advance)
      else c.advance.readStringFrom (value ++ [x]) := by
  rw [readStringFrom]
  split <;> next h => rw [h]

/-- A string, whose value is not sliced. -/
def readString (c : ByteCursor) : ByteReading :=
  let (value, stop) := c.advance.readStringFrom []
  some (.ok ⟨.string, value⟩, stop)

/-- A comment, sliced between its quotes. -/
def readComment (c : ByteCursor) : ByteReading :=
  let stop := c.advance.advanceWhile (· ≠ '\x22')
  (stop.sliceFrom? c.advance.position).map fun bytes =>
    (.ok ⟨.comment, Text.ofUtf8 bytes⟩, (stop.accept '\x22').1)

/-- A symbol, sliced behind its hash, or the opening of a literal array. -/
def readHash (c : ByteCursor) (start : Nat) : ByteReading :=
  match c.peek? 1 with
  | none => c.refuse .invalidHash start
  | some x =>
    if x.isAlphanum then
      (c.advance.advanceWhile fun x => !x.isWhitespace).emit .symbol c.advance.position
    else if x = '(' then c.readSpecial 2 start
    else c.refuse .invalidHash start

/-- One character, or two if the second is one of `seconds`. -/
def readOneOrTwo (c : ByteCursor) (seconds : Text) (start : Nat) : ByteReading :=
  match c.peek? 1 with
  | none => c.readSpecial 1 start
  | some x => c.readSpecial (if x ∈ seconds then 2 else 1) start

/-- Two characters, the second one of `seconds`. -/
def readTwo (c : ByteCursor) (seconds : Text) (fault : ScanFault) (start : Nat) : ByteReading :=
  match c.peek? 1 with
  | none => c.refuse fault start
  | some x => if x ∈ seconds then c.readSpecial 2 start else c.refuse fault start

/-- One or two characters that can not end the text. -/
def readNotLast (c : ByteCursor) (seconds : Text) (fault : ScanFault) (start : Nat) :
    ByteReading :=
  match c.peek? 1 with
  | none => c.refuse fault start
  | some _ => c.readOneOrTwo seconds start

/-- The cursor behind the characters of a numeric literal, and the fault that stopped it. -/
def captureFrom (c : ByteCursor) (marks : Reading.Marks) : Option ScanFault × ByteCursor :=
  match _h : c.peek? 0 with
  | none => (none, c)
  | some x =>
    match marks.step x (c.peek? 1) with
    | .take marks => c.advance.captureFrom marks
    | .stop => (none, c)
    | .clash fault => (some fault, c)
termination_by c.bytesLeft
decreasing_by exact bytesLeft_advance_lt _h

theorem captureFrom_eq (c : ByteCursor) (marks : Reading.Marks) : c.captureFrom marks =
    match c.peek? 0 with
    | none => (none, c)
    | some x =>
      match marks.step x (c.peek? 1) with
      | .take marks => c.advance.captureFrom marks
      | .stop => (none, c)
      | .clash fault => (some fault, c) := by
  rw [captureFrom]
  split <;> next h => rw [h]

/-- A number: captured first, then sliced and judged. -/
def readNumber (c : ByteCursor) (start : Nat) : ByteReading :=
  match c.captureFrom {} with
  | (some fault, stop) => stop.refuse fault stop.position
  | (none, stop) =>
    (stop.sliceFrom? start).map fun bytes =>
      match Numeral.evaluate (Text.ofUtf8 bytes) with
      | .ok value => (.ok ⟨.number, value.toText⟩, stop)
      | .error e => (.error (e.shift start), stop)

/-- A negative number if a digit follows the minus sign, else the minus sign itself. -/
def readMinus (c : ByteCursor) (start : Nat) : ByteReading :=
  if (c.peek? 1).any Char.isDigit then c.readNumber start else c.readSpecial 1 start

/-- **The token at a cursor whose current character is `x`,** other than a blank. -/
def readToken (c : ByteCursor) (x : Char) (start : Nat) : ByteReading :=
  if x.isAlpha then c.readName start
  else if x.isDigit then c.readNumber start
  else if CharClass.isSingleSpecial x then c.readSpecial 1 start
  else match x with
    | '=' => c.readOneOrTwo ['='] start
    | '/' => c.readOneOrTwo ['/'] start
    | '\\' => c.readTwo ['\\'] .trailingBackslash start
    | '~' => c.readTwo ['~', '='] .invalidTilde start
    | '>' => c.readNotLast ['='] .trailingGreater start
    | '<' => c.readNotLast ['-', '='] .trailingLess start
    | ':' => c.readBlockArgument start
    | '$' => c.readChar start
    | '#' => c.readHash start
    | '-' => c.readMinus start
    | '\x22' => c.readComment
    | '\x60' => c.readString
    | x => c.refuse (.unknownCharacter x) start

end ByteCursor

/-! ### The lexer -/

/-- A place in UTF-8 bytes, the start of the last token, and how to go on. -/
structure ByteLexer where
  cursor : ByteCursor
  tokenStart : Nat
  keepBlanks : Bool := false
  failed : Bool := false

namespace ByteLexer

/-- The lexer that starts at byte offset `start` of `text`. -/
def ofOffset (text : Text) (start : Nat) : ByteLexer :=
  { cursor := ByteCursor.ofOffset text start, tokenStart := start }

/-- **The next token;** `none` if a slice is out of range. A run of blanks is sliced too when it is
passed over. -/
def nextToken? (l : ByteLexer) : Option (Except ScanError (Option Token) × ByteLexer) :=
  let start := l.cursor.position
  match _h : l.cursor.peek? 0 with
  | none => some (.ok none, { l with tokenStart := start })
  | some x =>
    if _hx : x.isWhitespace then
      let stop := l.cursor.advanceWhile Char.isWhitespace
      match stop.sliceFrom? start with
      | none => none
      | some bytes =>
        if l.keepBlanks then
          some (.ok (some ⟨.whitespace, Text.ofUtf8 bytes⟩),
            { l with cursor := stop, tokenStart := start })
        else nextToken? { l with cursor := stop, tokenStart := start }
    else
      (l.cursor.readToken x start).map fun (outcome, stop) =>
        (outcome.map some, { l with cursor := stop, tokenStart := start })
termination_by l.cursor.bytesLeft
decreasing_by exact ByteCursor.bytesLeft_advanceWhile_lt _h _hx

section NextToken

variable {l : ByteLexer} {x : Char} (h : l.cursor.peek? 0 = some x)

theorem nextToken?_of_none (h : l.cursor.peek? 0 = none) :
    l.nextToken? = some (.ok none, { l with tokenStart := l.cursor.position }) := by
  rw [nextToken?]
  split
  · rfl
  · next heq => simp [h] at heq

include h

theorem nextToken?_of_blank (hx : x.isWhitespace = true) : l.nextToken? =
    ((l.cursor.advanceWhile Char.isWhitespace).sliceFrom? l.cursor.position).bind fun bytes =>
      let behind : ByteLexer := { l with
        cursor := l.cursor.advanceWhile Char.isWhitespace, tokenStart := l.cursor.position }
      if l.keepBlanks then some (.ok (some ⟨.whitespace, Text.ofUtf8 bytes⟩), behind)
      else behind.nextToken? := by
  rw [nextToken?]
  split
  · next heq => simp [h] at heq
  · next y heq =>
    obtain rfl : x = y := Option.some.inj (h.symm.trans heq)
    rw [dif_pos hx]
    dsimp only
    split
    · next hslice => rw [hslice, Option.bind_none]
    · next bytes hslice => rw [hslice, Option.bind_some]

theorem nextToken?_of_not_blank (hx : x.isWhitespace = false) : l.nextToken? =
    (l.cursor.readToken x l.cursor.position).map fun (outcome, stop) =>
      (outcome.map some, { l with cursor := stop, tokenStart := l.cursor.position }) := by
  rw [nextToken?]
  split
  · next heq => simp [h] at heq
  · next y heq =>
    obtain rfl : x = y := Option.some.inj (h.symm.trans heq)
    rw [dif_neg (by simp [hx])]

end NextToken

/-- The next token or error, and nothing after an error; `none` if a slice is out of range. -/
def next? (l : ByteLexer) : Option (Option (Except ScanError Token) × ByteLexer) :=
  if l.failed then some (none, l)
  else l.nextToken?.map fun
    | (.ok none, l) => (none, l)
    | (.ok (some token), l) => (some (.ok token), l)
    | (.error e, l) => (some (.error e), { l with failed := true })

/-- The lexer after a request; `none` if a slice is out of range. -/
def serve? (l : ByteLexer) : Lexer.Request → Option ByteLexer
  | .next => l.next?.map Prod.snd
  | .nextToken => l.nextToken?.map Prod.snd
  | .withBlanks keepBlanks => some { l with keepBlanks }

/-- The lexer after several requests; `none` if a slice is out of range. -/
def serveAll? (l : ByteLexer) (requests : List Lexer.Request) : Option ByteLexer :=
  requests.foldlM serve? l

end ByteLexer

/-! ### Cursors -/

namespace Cursor

/-- Where a cursor stands says what is left. -/
theorem eq_of_position {c d : Cursor} (hsource : c.source = d.source)
    (hposition : c.position = d.position) : c = d := by
  obtain ⟨source, position, rest, rfl⟩ := c
  obtain ⟨source', position', rest', rfl⟩ := d
  obtain rfl : source = source' := hsource
  obtain rfl : position = position' := hposition
  rfl

variable (c : Cursor)

theorem advanceBy_advanceBy (m n : Nat) : (c.advanceBy m).advanceBy n = c.advanceBy (m + n) := by
  apply eq_of_position
  · simp only [source_advanceBy]
  · rw [position_advanceBy, position_advanceBy, position_advanceBy, rest_advanceBy, List.take_add,
      Text.byteLength_append, Nat.add_assoc]

theorem advance_eq : c.advance = c.advanceBy 1 :=
  eq_of_position (by simp) (by simp)

theorem OnBoundary.advanceBy {c : Cursor} (h : c.OnBoundary) (n : Nat) :
    (c.advanceBy n).OnBoundary := h.moveAll [.advanceBy n]

/-- **The slice of some characters** from a boundary on. -/
theorem OnBoundary.sliceFrom?_advanceBy {c : Cursor} (h : c.OnBoundary) (n : Nat) :
    (c.advanceBy n).toBytes.sliceFrom? c.position =
      some (Text.utf8 (c.rest.take n)) := by
  have hslice := h.sliceFrom?_moveAll [.advanceBy n]
  have hpassed : Move.passedAll [.advanceBy n] c.rest = c.rest.take n := List.append_nil _
  rw [Cursor.sliceFrom?_toBytes]
  change ((c.moveAll [.advanceBy n]).sliceFrom? c.position).map Text.utf8 = _
  rw [hslice, hpassed]
  rfl

theorem advanceBy_length_take (n : Nat) :
    c.advanceBy (c.rest.take n).length = c.advanceBy n := by
  apply eq_of_position
  · simp only [source_advanceBy]
  · rw [position_advanceBy, position_advanceBy, List.length_take, ← List.take_take,
      List.take_length]

/-- A character that is accepted wherever there is one is passed like any other. -/
theorem accept_fst {c : Cursor} {x : Char} (h : ∀ d ∈ c.rest.head?, d = x) :
    (c.accept x).1 = c.advance := by
  unfold accept peek?
  rcases hr : c.rest with _ | ⟨d, t⟩
  · exact (advance_of_rest_nil c hr).symm
  · obtain rfl : d = x := h d (by rw [hr]; rfl)
    rw [List.getElem?_cons_zero, if_pos rfl]

theorem rest_advanceBy_one {c : Cursor} {x : Char} {t : Text} (hr : c.rest = x :: t) :
    (c.advanceBy 1).rest = t := by
  rw [rest_advanceBy, hr, List.drop_one, List.tail_cons]

end Cursor

/-! ### Every rule is the same on bytes -/

/-- What a reading comes to on the bytes at a cursor. -/
def Reading.onBytes (r : Reading) (c : Cursor) : Except ScanError Token × ByteCursor :=
  (r.outcome.mapError (·.shift c.position), (c.advanceBy r.lexeme.length).toBytes)

namespace Cursor

section Rules

variable {c : Cursor} (h : c.OnBoundary)

theorem refuse_toBytes (c : Cursor) (fault : ScanFault) :
    c.toBytes.refuse fault c.position = some ((Reading.refuse fault).onBytes c) := rfl

include h

theorem emit_toBytes (kind : TokenKind) (n : Nat) :
    (c.advanceBy n).toBytes.emit kind c.position =
      some (.ok ⟨kind, c.rest.take n⟩, (c.advanceBy n).toBytes) := by
  rw [ByteCursor.emit, h.sliceFrom?_advanceBy, Option.map_some, Text.ofUtf8_utf8]

theorem readSpecial_toBytes (n : Nat) : c.toBytes.readSpecial n c.position =
    some ((Reading.special (c.rest.take n)).onBytes c) := by
  rw [ByteCursor.readSpecial, advanceBy_toBytes, emit_toBytes h]
  change _ = some (_, (c.advanceBy (c.rest.take n).length).toBytes)
  rw [advanceBy_length_take]
  rfl

/-- The slice of a run of a class. -/
theorem sliceFrom?_advanceWhile (p : Char → Bool) :
    (c.advanceWhile p).toBytes.sliceFrom? c.position =
      some (Text.utf8 (c.rest.takeWhile p)) := by
  rw [advanceWhile, h.sliceFrom?_advanceBy, ← List.prefix_iff_eq_take.mp (List.takeWhile_prefix p)]

theorem emit_advanceWhile (kind : TokenKind) (p : Char → Bool) :
    (c.toBytes.advanceWhile p).emit kind c.position =
      some (.ok ⟨kind, c.rest.takeWhile p⟩, (c.advanceWhile p).toBytes) := by
  rw [ByteCursor.emit, advanceWhile_toBytes, sliceFrom?_advanceWhile h, Option.map_some,
    Text.ofUtf8_utf8]

/-- The slice of a run of a class behind the first character. -/
theorem emit_advance_advanceWhile {x : Char} {t : Text} (hr : c.rest = x :: t)
    (kind : TokenKind) (p : Char → Bool) :
    (c.toBytes.advance.advanceWhile p).emit kind c.toBytes.advance.position =
      some ((Reading.token kind (t.takeWhile p) (x :: t.takeWhile p)).onBytes c) := by
  have hrest := rest_advanceBy_one hr
  rw [advance_toBytes, advance_eq]
  change ((c.advanceBy 1).toBytes.advanceWhile p).emit kind (c.advanceBy 1).position = _
  rw [emit_advanceWhile (h.advanceBy 1), advanceWhile, hrest, advanceBy_advanceBy, Nat.add_comm]
  rfl

theorem readName_toBytes :
    c.toBytes.readName c.position = some ((Reading.name c.rest).onBytes c) := by
  unfold ByteCursor.readName
  rw [advanceWhile_toBytes]
  dsimp only
  rw [sliceFrom?_advanceWhile h, Option.map_some, accept_toBytes, accept, peek?, rest_advanceWhile,
    ← List.head?_eq_getElem?, Text.ofUtf8_utf8, Reading.name]
  dsimp only
  split
  · rw [advance_eq, advanceWhile, advanceBy_advanceBy]
    simp [Reading.token, Reading.onBytes, Except.mapError]
  · rfl

variable {x : Char} {t : Text} (hr : c.rest = x :: t)
include hr

omit h in
theorem peek?_one_toBytes : c.toBytes.peek? 1 = t.head? := by
  rw [peek?_toBytes, peek?, hr, List.getElem?_cons_succ, List.head?_eq_getElem?]

theorem readBlockArgument_toBytes (hx : x = ':') :
    c.toBytes.readBlockArgument c.position = some ((Reading.blockArgument t).onBytes c) := by
  subst hx
  unfold ByteCursor.readBlockArgument Reading.blockArgument
  rw [peek?_one_toBytes hr]
  rcases t.head? with _ | d
  · rfl
  · dsimp only
    split
    · exact emit_advance_advanceWhile h hr ..
    · rfl

omit h in
theorem readChar_toBytes : c.toBytes.readChar c.position = some ((Reading.char t).onBytes c) := by
  unfold ByteCursor.readChar Reading.char
  rw [peek?_one_toBytes hr]
  rcases t.head? with _ | d
  · rfl
  · dsimp only
    rw [advanceBy_toBytes]
    rfl

theorem readHash_toBytes (hx : x = '#') :
    c.toBytes.readHash c.position = some ((Reading.hash t).onBytes c) := by
  subst hx
  unfold ByteCursor.readHash Reading.hash
  rw [peek?_one_toBytes hr]
  rcases ht : t.head? with _ | d
  · rfl
  · dsimp only
    split
    · exact emit_advance_advanceWhile h hr ..
    · split
      · next hd =>
        obtain ⟨t', rfl⟩ := List.head?_eq_some_iff.mp ht
        rw [readSpecial_toBytes h, hr, hd]
        rfl
      · rfl

theorem readOneOrTwo_toBytes (seconds : Text) :
    c.toBytes.readOneOrTwo seconds c.position =
      some ((Reading.oneOrTwo x seconds t).onBytes c) := by
  unfold ByteCursor.readOneOrTwo Reading.oneOrTwo
  rw [peek?_one_toBytes hr]
  rcases t with _ | ⟨d, t⟩
  · rw [List.head?_nil, readSpecial_toBytes h, hr]
    rfl
  · simp only [List.head?_cons, readSpecial_toBytes h, hr]
    split <;> rfl

theorem readTwo_toBytes (seconds : Text) (fault : ScanFault) :
    c.toBytes.readTwo seconds fault c.position =
      some ((Reading.two x seconds fault t).onBytes c) := by
  unfold ByteCursor.readTwo Reading.two
  rw [peek?_one_toBytes hr]
  rcases t with _ | ⟨d, t⟩
  · rfl
  · simp only [List.head?_cons, readSpecial_toBytes h, hr]
    split <;> rfl

theorem readNotLast_toBytes (seconds : Text) (fault : ScanFault) :
    c.toBytes.readNotLast seconds fault c.position =
      some ((Reading.notLast x seconds fault t).onBytes c) := by
  unfold ByteCursor.readNotLast Reading.notLast
  rw [peek?_one_toBytes hr, readOneOrTwo_toBytes h hr]
  rcases t with _ | ⟨d, t⟩ <;> rfl

theorem readComment_toBytes (hx : x = '\x22') :
    c.toBytes.readComment = some ((Reading.comment t).onBytes c) := by
  subst hx
  have hrest := rest_advanceBy_one hr
  -- the body ends before a quote or with the text, so that accepting a quote only moves on
  let stop := (c.advanceBy 1).advanceWhile (· ≠ '\x22')
  have hbehind : stop.rest = t.dropWhile (· ≠ '\x22') := by rw [rest_advanceWhile, hrest]
  have hclose : ∀ d ∈ stop.rest.head?, d = '\x22' := by
    intro d hd
    rw [hbehind] at hd
    have hnot := List.head?_dropWhile_not (fun d : Char => decide (d ≠ '\x22')) t
    rw [hd] at hnot
    simpa using hnot
  have hslice : stop.toBytes.sliceFrom? (c.advanceBy 1).position =
      some (Text.utf8 (t.takeWhile (· ≠ '\x22'))) := by
    rw [sliceFrom?_advanceWhile (h.advanceBy 1), hrest]
  have haccept : (stop.accept '\x22').1 = c.advanceBy (Reading.comment t).lexeme.length := by
    rw [accept_fst hclose, advance_eq, ← advanceBy_length_take, hbehind]
    change ((c.advanceBy 1).advanceWhile _).advanceBy _ = _
    rw [advanceWhile, hrest, advanceBy_advanceBy, advanceBy_advanceBy]
    congr 1
    simp only [Reading.comment, Reading.token, List.length_append, List.length_cons]
    omega
  unfold ByteCursor.readComment
  rw [advance_toBytes, advance_eq, advanceWhile_toBytes]
  change (stop.toBytes.sliceFrom? (c.advanceBy 1).position).map _ = _
  rw [hslice, Option.map_some, Text.ofUtf8_utf8, accept_toBytes, haccept]
  rfl

end Rules

/-! ### Loops -/

theorem readStringFrom_toBytes (c : Cursor) (value : Text) :
    c.toBytes.readStringFrom value = (value ++ (Reading.stringBody c.rest).1,
      (c.advanceBy (Reading.stringBody c.rest).2.length).toBytes) := by
  generalize hr : c.rest = body
  fun_induction Reading.stringBody body generalizing c value with
  | case1 =>
    rw [ByteCursor.readStringFrom_eq, peek?_toBytes, peek?, hr]
    simp [advanceBy]
  | case2 cs body ih =>
    have hrest : (c.advanceBy 2).rest = cs := by rw [rest_advanceBy, hr]; rfl
    rw [ByteCursor.readStringFrom_eq, peek?_toBytes, peek?_one_toBytes hr, peek?, hr,
      advanceBy_toBytes]
    simp only [List.getElem?_cons_zero, List.head?_cons, if_true, ih _ _ hrest]
    rw [advanceBy_advanceBy, List.append_assoc, Nat.add_comm 2]
    rfl
  | case3 cs hcs =>
    have hnext : cs.head? ≠ some '\x60' := by
      intro hnext
      obtain ⟨t, rfl⟩ := List.head?_eq_some_iff.mp hnext
      exact hcs t rfl rfl
    rw [ByteCursor.readStringFrom_eq, peek?_toBytes, peek?_one_toBytes hr, peek?, hr,
      advance_toBytes, advance_eq]
    simp [hnext]
  | case4 d cs _ hd body ih =>
    have hrest := rest_advanceBy_one hr
    rw [ByteCursor.readStringFrom_eq, peek?_toBytes, peek?, hr, advance_toBytes, advance_eq]
    simp only [List.getElem?_cons_zero, if_neg hd, ih _ _ hrest]
    rw [advanceBy_advanceBy, List.append_assoc, Nat.add_comm 1]
    rfl

theorem captureFrom_toBytes (c : Cursor) (marks : Reading.Marks) :
    c.toBytes.captureFrom marks = ((Reading.capture marks c.rest).2,
      (c.advanceBy (Reading.capture marks c.rest).1.length).toBytes) := by
  generalize hr : c.rest = t
  induction t generalizing c marks with
  | nil =>
    rw [ByteCursor.captureFrom_eq, peek?_toBytes, peek?, hr]
    rfl
  | cons x t ih =>
    have hrest := rest_advanceBy_one hr
    rw [ByteCursor.captureFrom_eq, peek?_toBytes, peek?_one_toBytes hr, peek?, hr, advance_toBytes,
      advance_eq, Reading.capture, List.getElem?_cons_zero]
    dsimp only
    rcases marks.step x t.head? with m | _ | fault
    · dsimp only
      rw [ih _ _ hrest, advanceBy_advanceBy, Nat.add_comm 1]
      rfl
    · rfl
    · rfl

theorem readString_toBytes {c : Cursor} {t : Text} (hr : c.rest = '\x60' :: t) :
    c.toBytes.readString = some ((Reading.string t).onBytes c) := by
  unfold ByteCursor.readString
  rw [advance_toBytes, advance_eq, readStringFrom_toBytes, rest_advanceBy_one hr,
    advanceBy_advanceBy, Nat.add_comm 1]
  rfl

/-- A number is sliced behind what was captured. -/
theorem readNumber_toBytes {c : Cursor} (h : c.OnBoundary) :
    c.toBytes.readNumber c.position = some ((Reading.number c.rest).onBytes c) := by
  have hcaptured := List.prefix_iff_eq_take.mp (Reading.capture_isPrefix {} c.rest)
  unfold ByteCursor.readNumber Reading.number
  rw [captureFrom_toBytes]
  rcases hcapture : Reading.capture {} c.rest with ⟨literal, _ | fault⟩ <;>
    rw [hcapture] at hcaptured <;> dsimp only at hcaptured ⊢
  · rw [h.sliceFrom?_advanceBy, ← hcaptured, Option.map_some, Text.ofUtf8_utf8]
    rcases Numeral.evaluate literal with e | value <;> rfl
  · have hposition : (c.advanceBy literal.length).toBytes.position =
        c.position + literal.byteLength := by
      change (c.advanceBy literal.length).position = _
      rw [position_advanceBy, ← hcaptured]
    rw [ByteCursor.refuse, hposition]
    rfl

theorem readMinus_toBytes {c : Cursor} {x : Char} {t : Text} (h : c.OnBoundary)
    (hr : c.rest = x :: t) (hx : x = '-') :
    c.toBytes.readMinus c.position = some ((Reading.minus t).onBytes c) := by
  subst hx
  unfold ByteCursor.readMinus Reading.minus
  rw [peek?_one_toBytes hr, readNumber_toBytes h, readSpecial_toBytes h, hr]
  split <;> rfl

/-- **Every rule is the same on bytes.** -/
theorem readToken_toBytes {c : Cursor} {x : Char} {t : Text} (hr : c.rest = x :: t)
    (hx : x.isWhitespace = false) :
    c.toBytes.readToken x c.position = some ((Reading.ofText x t).onBytes c) := by
  -- something is left, so that every slice of a rule starts on a boundary
  have h : c.OnBoundary := onBoundary_of_rest_ne_nil (hr ▸ List.cons_ne_nil x t)
  unfold ByteCursor.readToken Reading.ofText
  rw [hx, readName_toBytes h, readNumber_toBytes h, readSpecial_toBytes h, hr,
    if_neg Bool.false_ne_true]
  split
  · rfl
  split
  · rfl
  split
  · rfl
  split
  · exact readOneOrTwo_toBytes h hr _
  · exact readOneOrTwo_toBytes h hr _
  · exact readTwo_toBytes h hr _ _
  · exact readTwo_toBytes h hr _ _
  · exact readNotLast_toBytes h hr _ _
  · exact readNotLast_toBytes h hr _ _
  · exact readBlockArgument_toBytes h hr rfl
  · exact readChar_toBytes hr
  · exact readHash_toBytes h hr rfl
  · exact readMinus_toBytes h hr rfl
  · exact readComment_toBytes h hr rfl
  · exact readString_toBytes hr
  · simp_all only [refuse_toBytes]

end Cursor

/-! ### Every request is the same on bytes -/

namespace Lexer

/-- The same lexer, without the characters that are left. -/
def toBytes (l : Lexer) : ByteLexer := ⟨l.cursor.toBytes, l.tokenStart, l.keepBlanks, l.failed⟩

/-- What the next token is, by the reading where it starts. -/
theorem nextToken_eq_onBytes {l : Lexer} {x : Char} {t : Text} (h : l.tokenCursor.rest = x :: t) :
    (l.nextToken.1, l.nextToken.2.toBytes) =
      let found := (Reading.ofText x t).onBytes l.tokenCursor
      (found.1.map some,
        { l.toBytes with cursor := found.2, tokenStart := l.tokenCursor.position }) := by
  unfold nextToken Reading.onBytes
  simp only [h]
  rcases (Reading.ofText x t).outcome with e | token <;> rfl

/-- Where blanks are passed over there is one. -/
theorem exists_blank_of_tokenCursor_ne {l : Lexer} (h : l.tokenCursor ≠ l.cursor) :
    l.keepBlanks = false ∧ l.tokenCursor = l.cursor.advanceWhile Char.isWhitespace ∧
      ∃ x t, l.cursor.rest = x :: t ∧ x.isWhitespace = true := by
  unfold tokenCursor at h ⊢
  cases hk : l.keepBlanks with
  | true => exact absurd (if_pos hk) h
  | false =>
    rw [hk, if_neg Bool.false_ne_true] at h
    refine ⟨rfl, if_neg Bool.false_ne_true, ?_⟩
    rcases hr : l.cursor.rest with _ | ⟨x, t⟩
    · exact absurd (Cursor.advanceWhile_of_takeWhile (by rw [hr]; rfl)) h
    · refine ⟨x, t, rfl, ?_⟩
      by_contra hx
      exact h (Cursor.advanceWhile_of_takeWhile (by rw [hr, List.takeWhile_cons_of_neg hx]))

theorem keepBlanks_of_tokenCursor {l : Lexer} {x : Char} {t : Text}
    (h : l.tokenCursor = l.cursor) (hr : l.cursor.rest = x :: t) (hx : x.isWhitespace = true) :
    l.keepBlanks = true := by
  by_contra hk
  have hrest := congrArg Cursor.rest h
  rw [rest_tokenCursor, Text.dropBlanks, if_neg hk, hr, List.dropWhile_cons_of_pos hx] at hrest
  have hlen := (List.dropWhile_suffix (l := t) Char.isWhitespace).length_le
  rw [hrest, List.length_cons] at hlen
  omega

theorem peek?_toBytes (l : Lexer) : l.toBytes.cursor.peek? 0 = l.cursor.rest.head? :=
  (Cursor.peek?_toBytes ..).trans List.head?_eq_getElem?.symm

theorem advanceWhile_toBytes (l : Lexer) (p : Char → Bool) :
    l.toBytes.cursor.advanceWhile p = (l.cursor.advanceWhile p).toBytes :=
  Cursor.advanceWhile_toBytes ..

/-- The slice of the blanks in front, whether they are passed over or not. -/
theorem sliceFrom?_blanks {l : Lexer} {x : Char} {t : Text} (hr : l.cursor.rest = x :: t) :
    (l.toBytes.cursor.advanceWhile Char.isWhitespace).sliceFrom? l.toBytes.cursor.position =
      some (Text.utf8 (l.cursor.rest.takeWhile Char.isWhitespace)) := by
  have hb : l.cursor.OnBoundary := Cursor.onBoundary_of_rest_ne_nil (hr ▸ List.cons_ne_nil x t)
  rw [advanceWhile_toBytes]
  exact Cursor.sliceFrom?_advanceWhile hb _

/-- The next token where no blanks are passed over. -/
theorem nextToken?_toBytes_of_tokenCursor {l : Lexer} (h : l.tokenCursor = l.cursor) :
    l.toBytes.nextToken? = some (l.nextToken.1, l.nextToken.2.toBytes) := by
  have hpeek := l.peek?_toBytes
  rcases hr : l.cursor.rest with _ | ⟨x, t⟩ <;> rw [hr] at hpeek
  · rw [ByteLexer.nextToken?_of_none hpeek, nextToken_of_rest_nil hr, moved, h]
    rfl
  rw [nextToken_eq_onBytes (h.symm ▸ hr), h]
  cases hx : x.isWhitespace with
  | false =>
    rw [ByteLexer.nextToken?_of_not_blank hpeek hx]
    change (l.cursor.toBytes.readToken x l.cursor.position).map _ = _
    rw [Cursor.readToken_toBytes hr hx]
    rfl
  | true =>
    have hk : l.toBytes.keepBlanks = true := keepBlanks_of_tokenCursor h hr hx
    rw [ByteLexer.nextToken?_of_blank hpeek hx, sliceFrom?_blanks hr, Option.bind_some,
      Text.ofUtf8_utf8, Reading.ofText_of_isWhitespace hx, ← hr]
    dsimp only
    rw [if_pos hk, advanceWhile_toBytes]
    rfl

/-- **The next token is the same on bytes,** and no slice is out of range. -/
theorem nextToken?_toBytes (l : Lexer) :
    l.toBytes.nextToken? = some (l.nextToken.1, l.nextToken.2.toBytes) := by
  by_cases h : l.tokenCursor = l.cursor
  · exact nextToken?_toBytes_of_tokenCursor h
  obtain ⟨hk, hcursor, x, t, hr, hx⟩ := exists_blank_of_tokenCursor_ne h
  -- the blanks are passed over once, and then there are none left to pass over
  let behind : Lexer := { l with cursor := l.tokenCursor, tokenStart := l.cursor.position }
  have hbehind : behind.tokenCursor = l.tokenCursor := by
    change (if l.keepBlanks = true then l.tokenCursor
      else l.tokenCursor.advanceWhile Char.isWhitespace) = l.tokenCursor
    rw [if_neg (by rw [hk]; exact Bool.false_ne_true), hcursor, Cursor.advanceWhile_advanceWhile]
  have hnext : behind.nextToken = l.nextToken := by
    unfold nextToken
    simp only [hbehind]
    rfl
  have hskip : ¬ l.toBytes.keepBlanks = true := by
    change ¬ l.keepBlanks = true
    rw [hk]
    exact Bool.false_ne_true
  have hpeek : l.toBytes.cursor.peek? 0 = some x := by
    rw [peek?_toBytes, hr]
    rfl
  rw [ByteLexer.nextToken?_of_blank hpeek hx, sliceFrom?_blanks hr, Option.bind_some]
  dsimp only
  rw [if_neg hskip, advanceWhile_toBytes, ← hcursor, ← hnext,
    ← nextToken?_toBytes_of_tokenCursor hbehind]
  rfl

theorem next?_toBytes (l : Lexer) : l.toBytes.next? = some (l.next.1, l.next.2.toBytes) := by
  unfold ByteLexer.next? next
  change (if l.failed = true then _ else _) = _
  split
  · rfl
  · rw [nextToken?_toBytes]
    rcases l.nextToken with ⟨e | _ | token, l'⟩ <;> rfl

theorem serve?_toBytes (l : Lexer) (r : Request) :
    l.toBytes.serve? r = some (l.serve r).toBytes := by
  cases r with
  | next => rw [ByteLexer.serve?, next?_toBytes]; rfl
  | nextToken => rw [ByteLexer.serve?, nextToken?_toBytes]; rfl
  | withBlanks keepBlanks => rfl

/-- **Requests are the same on bytes,** and no slice is out of range. -/
theorem serveAll?_toBytes (l : Lexer) (requests : List Request) :
    l.toBytes.serveAll? requests = some (l.serveAll requests).toBytes := by
  induction requests generalizing l with
  | nil => rfl
  | cons r requests ih =>
    rw [ByteLexer.serveAll?, List.foldlM_cons, serve?_toBytes]
    exact ih (l.serve r)

/-! ### Where the lexer stands -/

variable {l : Lexer}

theorem onBoundary_tokenCursor (h : l.cursor.OnBoundary) : l.tokenCursor.OnBoundary := by
  unfold tokenCursor
  split
  · exact h
  · exact h.advanceBy _

theorem onBoundary_serve (h : l.cursor.OnBoundary) (r : Request) :
    (l.serve r).cursor.OnBoundary := by
  rcases l.serve_moves r with ⟨hcursor, -⟩ | ⟨n, hcursor, -⟩ <;> rw [hcursor]
  · exact h
  · exact (onBoundary_tokenCursor h).advanceBy n

/-- **A request never goes back.** -/
theorem position_le_serve (l : Lexer) (r : Request) : l.position ≤ (l.serve r).position := by
  unfold position
  rcases l.serve_moves r with ⟨hcursor, -⟩ | ⟨n, hcursor, -⟩ <;> rw [hcursor]
  have htoken := l.position_tokenCursor
  rw [position] at htoken
  rw [Cursor.position_advanceBy]
  omega

theorem tokenStart_le_serve (h : l.tokenStart ≤ l.position) (r : Request) :
    (l.serve r).tokenStart ≤ (l.serve r).position := by
  unfold position at h ⊢
  rcases l.serve_moves r with ⟨hcursor, hstart⟩ | ⟨n, hcursor, hstart⟩ <;> rw [hcursor, hstart]
  · exact h
  · rw [Cursor.position_advanceBy]
    exact Nat.le_add_right ..

/-- Where nothing is left, no request moves the lexer. -/
theorem serve_of_rest_nil (h : l.cursor.rest = []) (r : Request) :
    (l.serve r).cursor.rest = [] ∧ (l.serve r).position = l.position := by
  have hsplit := l.skipped_append_rest
  rw [h, List.append_eq_nil_iff] at hsplit
  have htoken := l.position_tokenCursor
  rw [hsplit.1, Text.byteLength_nil, Nat.add_zero] at htoken
  unfold position at htoken ⊢
  rcases l.serve_moves r with ⟨hcursor, -⟩ | ⟨n, hcursor, -⟩ <;> rw [hcursor]
  · exact ⟨h, rfl⟩
  · rw [Cursor.rest_advanceBy, Cursor.position_advanceBy, hsplit.2, List.take_nil, List.drop_nil,
      Text.byteLength_nil]
    exact ⟨rfl, htoken⟩

end Lexer

open Lexer

/-- **No slice is ever out of range.** Whatever is asked of a lexer, and wherever it starts, the
lexer on bytes answers the same, so that all its slices lie between two characters, in order. The
lexer never goes back and never past the end of the text, or past its start if that is behind the
end; it stays on boundaries, and not before the start of its token. If it starts inside a character
or past the end, it stays there and reports the end. -/
theorem lexer_stays_in_range (text : Text) (start : Nat) (requests : List Request) :
    let l := (Lexer.ofOffset text start).serveAll requests
    (ByteLexer.ofOffset text start).serveAll? requests = some l.toBytes ∧
    l.toBytes.nextToken? = some (l.nextToken.1, l.nextToken.2.toBytes) ∧
    l.toBytes.next? = some (l.next.1, l.next.2.toBytes) ∧
    (∀ r, l.position ≤ (l.serve r).position) ∧
    l.position ≤ max start text.byteLength ∧
    (text.IsBoundary start → text.IsBoundary l.position) ∧
    l.tokenStart ≤ l.position ∧
    (¬ text.IsBoundary start →
      l.position = start ∧ l.nextToken.1 = .ok none ∧ l.next.1 = none) := by
  intro l
  have hsource : l.cursor.source = text := source_serveAll (Lexer.ofOffset text start) requests
  have hboundary (h : text.IsBoundary start) : l.cursor.OnBoundary :=
    serveAll_induction (motive := (·.cursor.OnBoundary)) (Cursor.onBoundary_ofOffset h)
      (fun _ r h => onBoundary_serve h r) requests
  have hstart : l.tokenStart ≤ l.position :=
    serveAll_induction (motive := fun l => l.tokenStart ≤ l.position) le_rfl
      (fun _ r h => tokenStart_le_serve h r) requests
  have hend (h : ¬ text.IsBoundary start) : l.cursor.rest = [] ∧ l.position = start := by
    refine serveAll_induction (motive := fun l => l.cursor.rest = [] ∧ l.position = start) ?_
      (fun l r h => ?_) requests
    · have hnone : text.dropBytes? start = none := by simpa [Text.IsBoundary] using h
      refine ⟨?_, rfl⟩
      change text.fromByte start = []
      rw [Text.fromByte, hnone]
      rfl
    · obtain ⟨hrest, hposition⟩ := serve_of_rest_nil h.1 r
      exact ⟨hrest, hposition.trans h.2⟩
  refine ⟨serveAll?_toBytes (Lexer.ofOffset text start) requests, nextToken?_toBytes l,
    next?_toBytes l, position_le_serve l, ?_, fun h => ?_, hstart, fun h => ?_⟩
  · by_cases h : text.IsBoundary start
    · have hadd := (hboundary h).position_add
      rw [hsource] at hadd
      exact (Nat.le.intro hadd).trans (le_max_right ..)
    · exact (hend h).2.le.trans (le_max_left ..)
  · exact hsource ▸ (hboundary h).isBoundary
  · obtain ⟨hrest, hposition⟩ := hend h
    refine ⟨hposition, ?_, Spent.next (Or.inr hrest)⟩
    rw [nextToken_of_rest_nil hrest]

/-- A lexer goes on behind an error in a number, and one inside a character stays there. -/
theorem lexer_stays_in_range_inside :
    let text : Text := "é 1r1r é".toList
    let l := (Lexer.ofOffset text 2).serveAll [.nextToken, .withBlanks true, .next]
    let inside := (Lexer.ofOffset text 1).serveAll [.next, .nextToken]
    text.IsBoundary 2 ∧ text.IsBoundary l.position ∧
      ¬ text.IsBoundary 1 ∧ inside.position = 1 := by
  intro text l inside
  have hstart : text.IsBoundary 2 := by decide +kernel
  have hinside : ¬ text.IsBoundary 1 := by decide +kernel
  have hboundary := (lexer_stays_in_range text 2
    [.nextToken, .withBlanks true, .next]).2.2.2.2.2.1 hstart
  have hstays := (lexer_stays_in_range text 1 [.next, .nextToken]).2.2.2.2.2.2.2 hinside
  exact ⟨hstart, hboundary, hinside, hstays.1⟩

end Smalltalk
