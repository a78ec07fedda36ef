import Smalltalk.Scan

/-! # Scans in print

A scan is printed either as lines or as one JSON object. The lines are one for each token, its kind
in a column of its own and its value quoted, and a last line with the offset where the scan
stopped:

    identifier    "x"
    sc            "<-"
    end 4 -/

namespace Smalltalk

/-- The line of a token, without its end; kinds take a column of thirteen characters. -/
def Token.line (t : Token) : Text :=
  t.kind.name ++ Text.blanks (13 - t.kind.name.length) ++ [' '] ++ t.value.quoted

namespace Scan

/-- **The lines of a scan.** -/
def lines (s : Scan) : Text :=
  s.tokens.flatMap (fun t => t.line ++ ['\n']) ++ "end ".toList ++ Text.ofNat s.stop ++ ['\n']

/-- **The JSON object of a scan,** with the name of its source. -/
def json (s : Scan) (name : Text) : Text :=
  "\x7b\"file\":".toList ++ name.jsonString ++ ",\"tokens\":[".toList ++
    [','].intercalate (s.tokens.map Token.json) ++ "],\"end\":".toList ++ Text.ofNat s.stop ++
    "\x7d\n".toList

end Scan

end Smalltalk
