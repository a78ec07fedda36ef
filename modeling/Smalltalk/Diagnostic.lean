import Smalltalk.Script
import Smalltalk.Source

/-! # Reports for people

A diagnostic is a message about a place in a source, with notes and helps. It is shown with the line
it is about and carets under the place:

    error: Ending with a trailing <
     --> main.st:3:8
      |
    3 | x <- y <
      |        ^

Every error that knows its offset has a diagnostic. -/

namespace Smalltalk

/-- A message about a span of a source. -/
structure Diagnostic where
  message : Text
  span : Span
  notes : List Text := []
  helps : List Text := []
  deriving DecidableEq

namespace Diagnostic

/-- The message in one line. -/
def display (d : Diagnostic) : Text := "error: ".toList ++ d.message

/-- The number of the line a diagnostic is about. -/
def lineNumber (d : Diagnostic) : Nat := max d.span.line.toNat 1

/-- Blanks as wide as the line number. -/
def gutter (d : Diagnostic) : Text := Text.blanks (Text.ofNat d.lineNumber).length

/-- The message and the place. -/
def heading (d : Diagnostic) (s : Source) : Text :=
  d.display ++ ['\n'] ++ d.gutter ++ "--> ".toList ++ s.name ++ [':'] ++ d.span.display ++ ['\n']

/-- The blanks and carets below the line. -/
def carets (d : Diagnostic) : Text :=
  Text.blanks (max d.span.column.toNat 1 - 1) ++ List.replicate (max d.span.length 1) '^'

/-- The line with the carets below it, if the source has such a line. -/
def snippet (d : Diagnostic) (s : Source) : Text :=
  match s.line? d.lineNumber with
  | none => []
  | some line =>
    d.gutter ++ " |\n".toList ++
    Text.ofNat d.lineNumber ++ " | ".toList ++ line ++ ['\n'] ++
    d.gutter ++ " | ".toList ++ d.carets ++ ['\n']

/-- One note or help. -/
def remark (d : Diagnostic) (label : Text) (text : Text) : Text :=
  d.gutter ++ " = ".toList ++ label ++ ": ".toList ++ text ++ ['\n']

/-- **The report of a diagnostic about a source.** -/
def render (d : Diagnostic) (s : Source) : Text :=
  d.heading s ++ d.snippet s ++ d.notes.flatMap (d.remark "note".toList) ++
    d.helps.flatMap (d.remark "help".toList)

end Diagnostic

/-! ### Errors as diagnostics -/

/-- The highest digit of a radix, a question mark for what is no radix. -/
def highestDigit (radix : Nat) : Char :=
  if radix < 2 ∨ 36 < radix then '?'
  else if radix ≤ 10 then Char.ofNat ('0'.toNat + (radix - 1))
  else Char.ofNat ('A'.toNat + (radix - 11))

/-- Advice that goes with a fault, as notes and helps. -/
def ScanFault.advice : ScanFault → List Text × List Text
  | .invalidDigit _ radix =>
    ([], ["radix ".toList ++ Text.ofNat radix ++ " digits are 0 to ".toList ++
      [highestDigit radix]])
  | .trailingBackslash => ([], ["write \x60\\\\\x60 for the backslash operator".toList])
  | .invalidRadix _ => (["a radix must be 2 to 36".toList], [])
  | _ => ([], [])

/-- The diagnostic of a scan error in a source. -/
def ScanError.diagnostic (e : ScanError) (s : Source) : Diagnostic :=
  { message := e.message, span := s.spanAt e.offset,
    notes := e.fault.advice.1, helps := e.fault.advice.2 }

/-- The diagnostic of a render error in a source, if the place is known. -/
def RenderError.diagnostic? (e : RenderError) (s : Source) : Option Diagnostic :=
  match e with
  | .scan e => some (e.diagnostic s)
  | .unsupported fault offset =>
    offset.map fun offset =>
      { message := fault.message, span := s.spanAt offset,
        notes := ["this token has no JavaScript rendering yet".toList] }

end Smalltalk
