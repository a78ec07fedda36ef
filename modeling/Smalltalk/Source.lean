import Smalltalk.Text.Quoted

/-! # Source texts by lines

A source is a named text. Lines end with a line feed; the text after the last line feed is a line
too, so there is always at least one. Lines and columns count from one, and columns count bytes.

* `Source.lineColumn`: the line and column of a byte offset.
* `Source.line?`: a line without the line feed and carriage returns at its end. -/

namespace Smalltalk

/-- A stretch of a source, from byte offset `start` up to `stop`, with the line and column of its
start, which are kept in 32 bits. -/
structure Span where
  start : Nat := 0
  stop : Nat := 0
  line : UInt32 := 0
  column : UInt32 := 0
  deriving DecidableEq

namespace Span

/-- The number of bytes of a span; one that ends before it starts has none. -/
def length (s : Span) : Nat := s.stop - s.start

/-- The span ends where it starts. -/
def isEmpty (s : Span) : Bool := s.start = s.stop

/-- Line and column, as in `3:7`. -/
def display (s : Span) : Text := Text.ofNat s.line.toNat ++ [':'] ++ Text.ofNat s.column.toNat

end Span

/-- A named text. -/
structure Source where
  name : Text
  content : Text
  deriving DecidableEq

namespace Source

/-- The offsets behind the line feeds of a text that starts at byte offset `offset`. -/
def startsBehindFeeds (offset : Nat) : Text → List Nat
  | [] => []
  | c :: cs =>
    if c = '\n' then (offset + c.utf8Size) :: startsBehindFeeds (offset + c.utf8Size) cs
    else startsBehindFeeds (offset + c.utf8Size) cs

/-- The byte offsets where the lines start. -/
def lineStarts (s : Source) : List Nat := 0 :: startsBehindFeeds 0 s.content

/-- The number of lines. -/
def lineCount (s : Source) : Nat := s.lineStarts.length

/-- The byte offset where the line with a given index starts, counted from zero. -/
def lineStart? (s : Source) (index : Nat) : Option Nat := s.lineStarts[index]?

/-- **The line and column of a byte offset;** an offset past the end stands for the end. -/
def lineColumn (s : Source) (offset : Nat) : Nat × Nat :=
  let offset := min offset s.content.byteLength
  let starts := s.lineStarts.takeWhile (· ≤ offset)
  (starts.length, offset - starts.getLastD 0 + 1)

/-- The span from `start` up to `stop`. A line or column that does not fit loses its high bits. -/
def span (s : Source) (start stop : Nat) : Span :=
  let (line, column) := s.lineColumn start
  { start, stop, line := UInt32.ofNat line, column := UInt32.ofNat column }

/-- The empty span at an offset. -/
def spanAt (s : Source) (offset : Nat) : Span := s.span offset offset

/-- A text without the line feeds and carriage returns at its end. -/
def trimLineEnd (t : Text) : Text :=
  (t.reverse.dropWhile fun c => c = '\n' || c = '\r').reverse

/-- **A line,** counted from one, without its end. -/
def line? (s : Source) (number : Nat) : Option Text :=
  if number = 0 then none
  else (s.lineStart? (number - 1)).bind fun start =>
    let stop := (s.lineStart? number).getD s.content.byteLength
    (s.content.slice? start stop).map trimLineEnd

/-- A short account of the source: its quoted name and number of lines. -/
def display (s : Source) : Text :=
  "SourceFile \x7b name: ".toList ++ s.name.quoted ++ ", line_count: ".toList ++
    Text.ofNat s.lineCount ++ " \x7d".toList

end Source

end Smalltalk
