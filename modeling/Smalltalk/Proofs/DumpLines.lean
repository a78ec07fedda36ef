import Smalltalk.Dump
import Smalltalk.Proofs.LinePieces
import Smalltalk.Proofs.NumeralGrammar
import Smalltalk.Proofs.QuotedTexts

/-! # The lines of a scan read back

Every character of a line has a visible form, so no line is broken by the value it shows, and the
lines of a scan are found again by cutting it at its line feeds. In the line of a token the name of
the kind ends at the first blank and the quoted value starts behind the last one, and the value can
be read back from its quotes; the last line has the offset.

* `Token.ofLine?`, `Scan.ofLines?`: the token of a line, the scan of all lines.
* `Token.isPrintable_of_mem_line`, `Scan.splitOn_lines`: no line is broken.
* `Token.ofLine?_line`, `Scan.ofLines?_lines`: what is read is what was printed.
* `Scan.lines_unambiguous`: so different scans have different lines. -/

namespace Smalltalk

/-! ### Lines in print -/

namespace TokenKind

theorem ascii_of_mem_name (k : TokenKind) : ∀ c ∈ k.name, 0x20 < c.toNat ∧ c.toNat < 0x7F := by
  cases k
  all_goals exact Text.forall_of_all (by decide)

theorem blank_notMem_name (k : TokenKind) : ' ' ∉ k.name := fun h =>
  absurd (k.ascii_of_mem_name ' ' h).1 (by decide)

end TokenKind

/-- **A line has a visible form for every character** of the token. -/
theorem Token.isPrintable_of_mem_line {t : Token} {c : Char} (h : c ∈ t.line) :
    Text.isPrintable c = true := by
  have hblank : Text.isPrintable ' ' = true := Text.isPrintable_of_ascii (by decide) (by decide)
  simp only [Token.line, List.mem_append, List.mem_singleton] at h
  rcases h with ((h | h) | rfl) | h
  · have hascii := t.kind.ascii_of_mem_name c h
    exact Text.isPrintable_of_ascii hascii.1.le hascii.2
  · rw [List.eq_of_mem_replicate h]
    exact hblank
  · exact hblank
  · exact Text.isPrintable_of_mem_quoted h

theorem Text.feed_notMem_of_isPrintable {t : Text} (h : ∀ c ∈ t, isPrintable c = true) :
    '\n' ∉ t := fun hmem => by
  have hfeed : isPrintable '\n' = false := by decide +kernel
  rw [h '\n' hmem] at hfeed
  cases hfeed

namespace Scan

/-- The last line of a scan, without its end. -/
def lastLine (s : Scan) : Text := "end ".toList ++ Text.ofNat s.stop

theorem feed_notMem_lastLine (s : Scan) : '\n' ∉ s.lastLine := by
  rw [lastLine, List.mem_append, not_or]
  refine ⟨by decide, fun h => ?_⟩
  exact absurd (Numeral.allDigits_ofNat s.stop '\n' h) (by decide)

/-- **No line of a scan is broken:** cut at its line feeds, it falls into the lines of its tokens,
the last line, and nothing behind that. -/
theorem splitOn_lines (s : Scan) :
    s.lines.splitOn '\n' = s.tokens.map Token.line ++ [s.lastLine, []] := by
  have hlines : s.lines = ['\n'].intercalate (s.tokens.map Token.line ++ [s.lastLine, []]) := by
    have hjoined := Text.intercalate_append_cons '\n'
      (s.tokens.map Token.line ++ [s.lastLine]) [] []
    rw [List.append_assoc, List.singleton_append] at hjoined
    rw [hjoined, lines, lastLine]
    simp [List.flatMap_map]
  rw [hlines]
  refine List.splitOn_intercalate '\n' (fun line h => ?_) (by simp)
  simp only [List.mem_append, List.mem_map, List.mem_cons, List.not_mem_nil, or_false] at h
  rcases h with ⟨t, -, rfl⟩ | rfl | rfl
  · exact Text.feed_notMem_of_isPrintable fun c => Token.isPrintable_of_mem_line
  · exact s.feed_notMem_lastLine
  · exact List.not_mem_nil

end Scan

/-! ### Lines read back -/

/-- The token that a line shows. -/
def Token.ofLine? (line : Text) : Option Token :=
  match line.cut ' ' with
  | (name, some rest) =>
    (TokenKind.ofName? name).bind fun kind =>
      (Text.ofQuoted? (rest.dropWhile (· = ' '))).map (Token.mk kind)
  | (_, none) => none

namespace Scan

/-- The offset in a last line. -/
def stopOfLine? (line : Text) : Option Nat :=
  match line.cut ' ' with
  | (word, some digits) =>
    if word = "end".toList ∧ digits ≠ [] ∧ Numeral.AllDigits digits then
      some (Nat.ofDigitChars 10 digits 0)
    else none
  | (_, none) => none

/-- **The scan that a text shows in lines,** if it is such a text. -/
def ofLines? (t : Text) : Option Scan :=
  match (t.splitOn '\n').reverse with
  | [] :: last :: lines =>
    (lines.reverse.mapM Token.ofLine?).bind fun tokens =>
      (stopOfLine? last).map (Scan.mk tokens)
  | _ => none

end Scan

/-- **The line of a token shows that token.** -/
theorem Token.ofLine?_line (t : Token) : Token.ofLine? t.line = some t := by
  obtain ⟨kind, value⟩ := t
  have hblanks : ∀ n, Text.blanks n ++ [' '] = ' ' :: Text.blanks n := fun n =>
    (List.replicate_succ' ..).symm.trans (List.replicate_succ ..)
  have hline : Token.line ⟨kind, value⟩ = kind.name ++
      ' ' :: (Text.blanks (13 - kind.name.length) ++ value.quoted) := by
    rw [Token.line, List.append_assoc kind.name, hblanks, List.append_assoc, List.cons_append]
  have hvalue : (Text.blanks (13 - kind.name.length) ++ value.quoted).dropWhile (· = ' ') =
      value.quoted := by
    rw [List.dropWhile_append_of_pos]
    · rfl
    · intro c hc
      rw [List.eq_of_mem_replicate hc]
      rfl
  rw [Token.ofLine?, hline, Text.cut_append kind.blank_notMem_name, Text.cut_cons_self,
    List.append_nil]
  dsimp only
  rw [hvalue, TokenKind.ofName?_name, Option.bind_some, Text.ofQuoted?_quoted, Option.map_some]

namespace Scan

theorem stopOfLine?_lastLine (s : Scan) : stopOfLine? s.lastLine = some s.stop := by
  have hcut : s.lastLine.cut ' ' = ("end".toList, some (Text.ofNat s.stop)) := rfl
  rw [stopOfLine?, hcut]
  dsimp only
  rw [if_pos ⟨rfl, Numeral.ofNat_ne_nil s.stop, Numeral.allDigits_ofNat s.stop⟩,
    Numeral.ofDigitChars_ofNat]

/-- **The lines of a scan show that scan.** -/
theorem ofLines?_lines (s : Scan) : ofLines? s.lines = some s := by
  have htokens : (s.tokens.map Token.line).mapM Token.ofLine? = some s.tokens := by
    induction s.tokens with
    | nil => rfl
    | cons t ts ih => simp [Token.ofLine?_line, ih]
  rw [ofLines?, splitOn_lines]
  simp [htokens, stopOfLine?_lastLine]

/-- **The lines of a scan are unambiguous.** There is one line for each token and a last one, and no
line is broken, since every character in them has a visible form. The scan can be read back, so two
scans with the same lines are the same. -/
theorem lines_unambiguous :
    (∀ s : Scan, s.lines.splitOn '\n' =
      s.tokens.map Token.line ++ ["end ".toList ++ Text.ofNat s.stop, []]) ∧
    (∀ s : Scan, s.lines.count '\n' = s.tokens.length + 1) ∧
    (∀ t : Token, t.line.all Text.isPrintable = true) ∧
    (∀ s : Scan, ofLines? s.lines = some s) ∧
    Function.Injective Scan.lines := by
  refine ⟨splitOn_lines, fun s => ?_, fun t => ?_, ofLines?_lines, fun s s' h => ?_⟩
  · have hlength := Text.length_splitOn s.lines '\n'
    rw [splitOn_lines, List.length_append, List.length_map] at hlength
    exact (Nat.succ.inj hlength).symm
  · exact List.all_eq_true.mpr fun c => Token.isPrintable_of_mem_line
  · have hread := congrArg ofLines? h
    rw [ofLines?_lines, ofLines?_lines] at hread
    exact Option.some.inj hread

end Scan

end Smalltalk
