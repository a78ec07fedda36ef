import Smalltalk.Proofs.Blanks
import Smalltalk.Proofs.FaultOffsets
import Smalltalk.Proofs.Lines
import Smalltalk.Proofs.Rendering

/-! # Reports point at the offending character

The offset of an error becomes a line and a column, and these a line of text with carets below it.
A line is shown without the line ends at its end, so a report about one of these would point behind
the line. No error is about a blank, and so every report points at a character it shows.

* `Text.VisibleAt`: the character at an offset is no blank.
* `Lexer.visibleAt_of_error`, `visibleAt_of_render_error`: so it is at the offset of every error.
* `Source.exists_line`: a line shows such a character at its column.
* `Diagnostic.PointsAt`: a report shows the character at an offset.
* `report_pointsAt`: the reports of all errors do. -/

namespace Smalltalk

/-! ### Errors are about no blanks -/

namespace Text

/-- The character at an offset of the text is no blank. -/
def VisibleAt (t : Text) (offset : Nat) : Prop :=
  ∃ (front : Text) (c : Char) (back : Text),
    t = front ++ c :: back ∧ front.byteLength = offset ∧ c.isWhitespace = false

theorem visibleAt_zero {c : Char} (h : c.isWhitespace = false) (t : Text) :
    VisibleAt (c :: t) 0 :=
  ⟨[], c, t, rfl, rfl, h⟩

theorem VisibleAt.append {t : Text} {offset : Nat} (h : t.VisibleAt offset) (r : Text) :
    VisibleAt (t ++ r) offset := by
  obtain ⟨front, c, back, rfl, hfront, hc⟩ := h
  exact ⟨front, c, back ++ r, by simp, hfront, hc⟩

theorem VisibleAt.behind {t : Text} {offset : Nat} (h : t.VisibleAt offset) (s : Text) :
    VisibleAt (s ++ t) (s.byteLength + offset) := by
  obtain ⟨front, c, back, rfl, hfront, hc⟩ := h
  exact ⟨s ++ front, c, back, by simp, by rw [byteLength_append, hfront], hc⟩

end Text

namespace Reading

/-- An error of the reading is at its first character. -/
def AtFirst (r : Reading) : Prop := ∀ e, r.outcome = .error e → e.offset = 0

theorem Plain.atFirst {r : Reading} (h : r.Plain) : r.AtFirst := by
  intro e he
  cases h with
  | token hkind value lexeme => cases he
  | refuse hfault =>
    obtain rfl := Except.error.inj he
    rfl

/-- Only within a number an error can be behind the first character. -/
theorem atFirst_or_number (c : Char) (t : Text) :
    (ofText c t).AtFirst ∨ ofText c t = number (c :: t) :=
  (plain_or_number c t).imp Plain.atFirst And.right

theorem step_of_isWhitespace {c : Char} (h : c.isWhitespace) (m : Marks) (next : Option Char) :
    m.step c next = .stop := by
  simp only [Char.isWhitespace, Bool.or_eq_true, decide_eq_true_eq, or_assoc] at h
  rcases h with rfl | rfl | rfl | rfl <;> rfl

/-- A numeric literal has no blanks. -/
theorem isWhitespace_of_mem_capture {m : Marks} {t : Text} {c : Char} (h : c ∈ (capture m t).1) :
    c.isWhitespace = false := by
  induction t generalizing m with
  | nil => simp [capture] at h
  | cons d t ih =>
    unfold capture at h
    rcases hs : m.step d t.head? with m' | _ | fault <;> simp only [hs] at h
    · rcases List.mem_cons.mp h with rfl | h
      · rw [Bool.eq_false_iff]
        intro hc
        rw [step_of_isWhitespace hc] at hs
        cases hs
      · exact ih h
    · simp at h
    · simp at h

/-- **The error of a reading is at a character that is no blank.** -/
theorem visibleAt_of_error {c : Char} {t : Text} {e : ScanError}
    (h : (ofText c t).outcome = .error e) : Text.VisibleAt (c :: t) e.offset := by
  by_cases h0 : e.offset = 0
  · have hc : c.isWhitespace = false := by
      rw [Bool.eq_false_iff]
      intro hc
      rw [ofText_of_isWhitespace hc] at h
      cases h
    rw [h0]
    exact Text.visibleAt_zero hc t
  have hnumber := (atFirst_or_number c t).resolve_left fun hfirst => h0 (hfirst e h)
  rw [hnumber] at h
  rcases number_cases (c :: t) with ⟨literal, fault, hc, hn⟩ | ⟨literal, v, -, -, hn⟩ |
    ⟨literal, e', hc, he, hn⟩
  · rw [hn] at h
    obtain rfl := Except.error.inj h
    obtain ⟨d, r, ht, hf⟩ := capture_fault hc
    refine ⟨literal, d, r, ht, rfl, ?_⟩
    rcases hf with ⟨-, rfl⟩ | ⟨-, rfl⟩ <;> rfl
  · rw [hn] at h
    cases h
  · rw [hn] at h
    obtain rfl := Except.error.inj h
    obtain ⟨r, hr⟩ : literal <+: c :: t := by simpa [hc] using capture_isPrefix {} (c :: t)
    have hvisible : ∀ d ∈ literal, d.isWhitespace = false := fun d hd =>
      isWhitespace_of_mem_capture (m := {}) (t := c :: t) (by rw [hc]; exact hd)
    rw [← hr]
    refine Text.VisibleAt.append ?_ r
    cases Numeral.literalFault_of_evaluate he with
    | radix _ => exact absurd rfl h0
    | digit hl _ => exact ⟨_, _, _, hl, rfl, hvisible _ (by simp [hl])⟩
    | exponent hl _ => exact ⟨_, _, _, hl, rfl, hvisible _ (by simp [hl])⟩
    | mantissa _ => exact absurd rfl h0

end Reading

theorem Lexer.visibleAt_of_error {l : Lexer} {e : ScanError} (h : l.placedTokens = .error e) :
    l.cursor.source.VisibleAt e.offset := by
  obtain ⟨front, c, t, e', hs, -, ho, rfl⟩ := exists_reading_of_error h
  rw [hs, ScanError.offset_shift]
  exact (Reading.visibleAt_of_error ho).behind front

/-- A token without a form in the script starts with a character that is no blank. -/
theorem Token.visibleAt_source {k : Token} (h : k.HasShape) (hk : ¬ k.HasScript) :
    k.source.VisibleAt 0 := by
  have hname : ∀ v : Text, v.IsName → v.VisibleAt 0 := by
    rintro v ⟨c, w, rfl, hc, -⟩
    exact Text.visibleAt_zero (isWhitespace_of_isAlphanum (isAlphanum_of_isAlpha hc)) w
  obtain ⟨kind, value⟩ := k
  cases kind with
  | char => exact Text.visibleAt_zero rfl value
  | blockArgument => exact Text.visibleAt_zero rfl value
  | identifier => exact hname value h
  | parameter => exact (hname value h).append [':']
  | special =>
    have hspellings : ∀ v ∈ spellings, v.head?.any (!Char.isWhitespace ·) := by decide
    have hvalue := hspellings value h
    cases value with
    | nil => cases hvalue
    | cons c w => exact Text.visibleAt_zero (by simpa using hvalue) w
  | _ => exact absurd trivial hk

theorem visibleAt_of_render_error {text : Text} {e : RenderError} (h : render text = .error e) :
    ∃ offset, e.offset? = some offset ∧ text.VisibleAt offset := by
  rcases render_error_cases h with ⟨e', hscan, rfl⟩ |
    ⟨placed, stop, p, hplaced, htiles, hmem, hk, rfl⟩
  · exact ⟨_, rfl, Lexer.visibleAt_of_error (scan_error text.isBoundary_zero.canStart hscan)⟩
  · have hshape := (Lexer.run_of_placedTokens hplaced).hasShape _ (List.mem_map_of_mem hmem)
    obtain ⟨w, atEnd, hslice, hw⟩ := htiles.writtenAs hmem
    rw [Token.source_of_not_hasScript hk hw] at hslice
    obtain ⟨front, back, rfl, hfront⟩ := Text.slice?_eq_some hslice
    refine ⟨p.start, rfl, ?_⟩
    rw [← hfront]
    exact ((Token.visibleAt_source hshape hk).append back).behind front

/-! ### What a report shows -/

/-- **The report of a diagnostic about `s` points at the character at `offset`:** the place it names
is that offset, and the line it shows has the same character there. -/
structure Diagnostic.PointsAt (d : Diagnostic) (s : Source) (offset : Nat) (line : Text) :
    Prop where
  column_pos : 1 ≤ d.span.column.toNat
  line_eq : s.line? d.span.line.toNat = some line
  column_lt : d.span.column.toNat - 1 < line.byteLength
  character : ∃ c t u, line.dropBytes? (d.span.column.toNat - 1) = some (c :: t) ∧
    s.content.dropBytes? offset = some (c :: u)
  lineStart : ∃ start, s.lineStart? (d.span.line.toNat - 1) = some start ∧
    start + (d.span.column.toNat - 1) = offset
  place : "--> ".toList ++ s.name ++ [':'] ++ Text.ofNat d.span.line.toNat ++ [':'] ++
    Text.ofNat d.span.column.toNat ++ ['\n'] <:+: d.render s
  shown : Text.ofNat d.span.line.toNat ++ " | ".toList ++ line ++ ['\n'] <:+: d.render s

namespace Diagnostic

theorem place_infix_render (d : Diagnostic) (s : Source) :
    "--> ".toList ++ s.name ++ [':'] ++ Text.ofNat d.span.line.toNat ++ [':'] ++
      Text.ofNat d.span.column.toNat ++ ['\n'] <:+: d.render s := by
  refine ⟨d.display ++ ['\n'] ++ d.gutter, d.snippet s ++
    d.notes.flatMap (d.remark "note".toList) ++ d.helps.flatMap (d.remark "help".toList), ?_⟩
  unfold render heading Span.display
  simp only [List.append_assoc]

theorem line_infix_render {d : Diagnostic} {s : Source} {line : Text}
    (h : s.line? d.lineNumber = some line) :
    Text.ofNat d.lineNumber ++ " | ".toList ++ line ++ ['\n'] <:+: d.render s := by
  refine ⟨d.heading s ++ d.gutter ++ " |\n".toList,
    d.gutter ++ " | ".toList ++ d.carets ++ ['\n'] ++
      d.notes.flatMap (d.remark "note".toList) ++ d.helps.flatMap (d.remark "help".toList), ?_⟩
  unfold render snippet
  simp only [h, List.append_assoc]

end Diagnostic

/-- A character that is no blank stands in a line, at its column, and is shown with it: only blanks
are cut off. -/
theorem Source.exists_lineAt_of_visibleAt {s : Source} {offset : Nat}
    (h : s.content.VisibleAt offset) :
    ∃ (front t : Text) (c : Char) (u back : Text), s.LineAt front (t ++ c :: u) back ∧
      front.byteLength + t.byteLength = offset ∧
      s.lineColumn offset = (front.count '\n' + 1, t.byteLength + 1) ∧
      s.line? (front.count '\n' + 1) = some (t ++ c :: trimLineEnd u) ∧
      s.content.dropBytes? offset = some (c :: (u ++ back)) := by
  obtain ⟨before, c, behind, hs, rfl, hc⟩ := h
  have hfeed : c ≠ '\n' := by rintro rfl; cases hc
  have hreturn : c ≠ '\r' := by rintro rfl; cases hc
  obtain ⟨front, t, u, back, rfl, hu, hline⟩ := exists_lineAt hs
  cases u with
  | nil => exact absurd (hline.back c (by rw [← List.nil_append back, ← hu]; rfl)) hfeed
  | cons c' u =>
    obtain ⟨rfl, rfl⟩ := List.cons.inj hu
    have hplace := hline.lineColumn_eq (Nat.le_add_right _ t.byteLength) (by simp)
    rw [Nat.add_sub_cancel_left, ← Text.byteLength_append] at hplace
    have hshown := hline.line?_eq
    rw [trimLineEnd_append hfeed hreturn] at hshown
    exact ⟨front, t, c, u, back, hline, (Text.byteLength_append ..).symm, hplace, hshown,
      Text.dropBytes?_eq_some_iff.mpr ⟨front ++ t, hs, rfl⟩⟩

/-- **A line shows every character of it that is no blank,** at the column of the character. -/
theorem Source.exists_line {s : Source} {offset : Nat} (h : s.content.VisibleAt offset) :
    ∃ number column start line c t u,
      s.lineColumn offset = (number + 1, column + 1) ∧
      s.lineStart? number = some start ∧ start + column = offset ∧
      s.line? (number + 1) = some line ∧ line.dropBytes? column = some (c :: t) ∧
      s.content.dropBytes? offset = some (c :: u) := by
  obtain ⟨front, t, c, u, back, hline, hoffset, hplace, hshown, hhere⟩ :=
    exists_lineAt_of_visibleAt h
  exact ⟨_, _, _, _, c, trimLineEnd u, u ++ back, hplace, hline.lineStart?_eq, hoffset, hshown,
    Text.dropBytes?_eq_some_iff.mpr ⟨t, rfl, rfl⟩, hhere⟩

theorem Text.lt_of_dropBytes? {t r : Text} {c : Char} {n : Nat}
    (h : t.dropBytes? n = some (c :: r)) : n < t.byteLength := by
  obtain ⟨front, rfl, rfl⟩ := dropBytes?_eq_some_iff.mp h
  have hc := Char.utf8Size_pos c
  rw [byteLength_append, byteLength_cons]
  omega

section

variable {s : Source} (hlines : s.lineCount < UInt32.size)
  (hbytes : ∀ n line, s.line? n = some line → line.byteLength < UInt32.size)
include hlines hbytes

/-- **A diagnostic at a character that is no blank points at it,** if its line and column fit. -/
theorem Diagnostic.exists_pointsAt {d : Diagnostic} {offset : Nat}
    (hv : s.content.VisibleAt offset) (hd : d.span = s.spanAt offset) :
    ∃ line, d.PointsAt s offset line := by
  obtain ⟨number, column, start, line, c, t, u, hplace, hstart, hoffset, hline, hthere, hhere⟩ :=
    Source.exists_line hv
  have hnumber : number < s.lineCount := (List.getElem?_eq_some_iff.mp hstart).1
  have hcolumn := Text.lt_of_dropBytes? hthere
  have hwidth := hbytes _ _ hline
  have hl : d.span.line.toNat = number + 1 := by
    rw [hd, Source.spanAt, Source.span, hplace]
    exact UInt32.toNat_ofNat_of_lt' (by omega)
  have hc : d.span.column.toNat = column + 1 := by
    rw [hd, Source.spanAt, Source.span, hplace]
    exact UInt32.toNat_ofNat_of_lt' (by omega)
  have hshown : d.lineNumber = d.span.line.toNat := by
    unfold lineNumber
    omega
  rw [← hl, ← hshown] at hline
  refine ⟨line, by omega, by rw [← hshown]; exact hline, by omega, ⟨c, t, u, ?_, hhere⟩,
    ⟨start, ?_, by omega⟩, d.place_infix_render s, ?_⟩
  · rw [hc]
    exact hthere
  · rw [hl]
    exact hstart
  · rw [← hshown]
    exact line_infix_render hline

/-- **Reports point at the offending character.** Let the number of lines of a source and of the
bytes of each line fit in 32 bits. Then every error of a scan that starts on a character boundary,
and every error of rendering the text, has a diagnostic that points at the character at its
offset. -/
theorem report_pointsAt :
    (∀ start keepBlanks e, s.content.IsBoundary start →
      scan s.content start keepBlanks = .error e →
      ∃ line, (e.diagnostic s).PointsAt s e.offset line) ∧
    ∀ e, render s.content = .error e →
      ∃ d offset line, e.diagnostic? s = some d ∧ e.offset? = some offset ∧
        d.PointsAt s offset line := by
  refine ⟨fun start keepBlanks e hstart h => ?_, fun e h => ?_⟩
  · have hv := Lexer.visibleAt_of_error (scan_error hstart.canStart h)
    exact Diagnostic.exists_pointsAt hlines hbytes hv rfl
  · obtain ⟨offset, ho, hv⟩ := visibleAt_of_render_error h
    obtain ⟨d, hd, hspan⟩ := RenderError.exists_diagnostic_spanAt ho s
    obtain ⟨line, hline⟩ := Diagnostic.exists_pointsAt hlines hbytes hv hspan
    exact ⟨d, offset, line, hd, ho, hline⟩

end

theorem report_pointsAt_before_line_ends :
    (∃ line, (ScanError.diagnostic ⟨.invalidDigit 'G' 16, 6⟩
      ⟨"a.st".toList, ['x', '\r', '\n', '1', '6', 'r', 'G', '\r']⟩).PointsAt
        ⟨"a.st".toList, ['x', '\r', '\n', '1', '6', 'r', 'G', '\r']⟩ 6 line) ∧
    ∃ d offset line,
      (RenderError.unsupported (.unknownOperator "<-".toList) (some 3)).diagnostic?
        ⟨"b.st".toList, "#a\n<-\r\n".toList⟩ = some d ∧
      (RenderError.unsupported (.unknownOperator "<-".toList) (some 3)).offset? = some offset ∧
      d.PointsAt ⟨"b.st".toList, "#a\n<-\r\n".toList⟩ offset line := by
  have hdigit : ((Lexer.ofOffset ['x', '\r', '\n', '1', '6', 'r', 'G', '\r'] 3).withBlanks
      false).drive (List.replicate 1 .nextToken) =
      ([], some (.error ⟨.invalidDigit 'G' 16, 6⟩)) := rfl
  have hscan := scan_of_drive (Or.inr (by decide)) false hdigit
  have hdrive : ((Lexer.ofOffset "#a\n<-\r\n".toList 0).withBlanks true).drive
      (List.replicate 5 .nextToken) =
      ([⟨⟨.symbol, ['a']⟩, 0, 2⟩, ⟨⟨.whitespace, ['\n']⟩, 2, 3⟩, ⟨⟨.special, "<-".toList⟩, 3, 5⟩,
        ⟨⟨.whitespace, "\r\n".toList⟩, 5, 7⟩], some (.ok 7)) := rfl
  have hrender : render "#a\n<-\r\n".toList =
      .error (.unsupported (.unknownOperator "<-".toList) (some 3)) := by
    rw [render, Lexer.placedTokens_of_drive hdrive]
    rfl
  have hbytes : ∀ s : Source, s.content.byteLength < UInt32.size →
      ∀ n line, s.line? n = some line → line.byteLength < UInt32.size :=
    fun s hs n line h => Nat.lt_of_le_of_lt (Source.byteLength_line?_le h) hs
  exact ⟨(report_pointsAt (by decide) (hbytes _ (by decide))).1 3 false _ (by decide) hscan,
    (report_pointsAt (by decide) (hbytes _ (by decide))).2 _ hrender⟩

end Smalltalk
