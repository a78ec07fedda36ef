import Smalltalk.Proofs.LinePieces
import Smalltalk.Proofs.Reports

/-! # Where the caret of a report stands

A report shows a line and below it a caret behind some blanks, both behind the same margin. The
blanks are one less than the column, and columns count bytes; the line above is made of characters.
So the caret stands under the offending character if all characters before it in its line are of one
byte, that is ASCII, and behind it if not.

* `Diagnostic.ShowsCaret`: a report shows a line with a caret below it.
* `Diagnostic.CaretBehind`: the caret below the line of a character is behind so many blanks.
* `caret_behind_bytes`: the blanks are as many as the bytes before the offending character.
* `caret_apart`: so behind a longer character the caret stands elsewhere. -/

namespace Smalltalk

/-! ### The text before a character in its line -/

theorem Text.byteLength_eq_length_iff (t : Text) :
    t.byteLength = t.length ↔ ∀ c ∈ t, c.toNat < 0x80 := by
  induction t with
  | nil => simp
  | cons c t ih =>
    have hsize : c.utf8Size = 1 ↔ c.toNat < 0x80 := by
      rw [Char.utf8Size_eq_one_iff, UInt32.le_iff_toNat_le]
      exact Nat.lt_succ_iff.symm
    have hpos := Char.utf8Size_pos c
    have hle := length_le_byteLength t
    rw [List.forall_mem_cons, ← hsize, ← ih, byteLength_cons, List.length_cons]
    omega

namespace Source

variable {s : Source}

/-- What stands before an offset in its line. -/
def lineBefore (s : Source) (offset : Nat) : Text :=
  ((s.content.takeBytes? offset).getD []).rtakeWhile (· ≠ '\n')

theorem LineAt.lineBefore_eq {front t u back : Text} (h : s.LineAt front (t ++ u) back) :
    s.lineBefore (front.byteLength + t.byteLength) = t := by
  have hcontent : s.content = (front ++ t) ++ (u ++ back) := by rw [h.content]; simp
  have hline : ∀ c ∈ t.reverse, decide (c ≠ '\n') = true := by
    intro c hc
    have hne : c ≠ '\n' := by
      rintro rfl
      exact h.line (List.mem_append_left u (List.mem_reverse.mp hc))
    exact decide_eq_true hne
  have hfront : front.reverse.takeWhile (fun c => decide (c ≠ '\n')) = [] := by
    have hlast := h.front
    rw [← List.head?_reverse] at hlast
    cases hr : front.reverse with
    | nil => rfl
    | cons c r =>
      obtain rfl : c = '\n' := hlast c (by rw [hr]; rfl)
      rfl
  rw [lineBefore, hcontent, ← Text.byteLength_append, Text.takeBytes?_append, Option.getD_some,
    List.rtakeWhile, List.reverse_append, List.takeWhile_append_of_pos hline, hfront,
    List.append_nil, List.reverse_reverse]

/-- **A line shows every character of it that is no blank,** behind what stands before it. -/
theorem exists_line_lineBefore {offset : Nat} (h : s.content.VisibleAt offset) :
    ∃ number c t u, s.lineColumn offset = (number + 1, (s.lineBefore offset).byteLength + 1) ∧
      s.line? (number + 1) = some (s.lineBefore offset ++ c :: t) ∧
      s.content.dropBytes? offset = some (c :: u) := by
  obtain ⟨front, t, c, u, back, hline, rfl, hplace, hshown, hhere⟩ := exists_lineAt_of_visibleAt h
  rw [hline.lineBefore_eq]
  exact ⟨_, c, trimLineEnd u, u ++ back, hplace, hshown, hhere⟩

theorem feed_notMem_of_line? {number : Nat} {line : Text} (h : s.line? number = some line) :
    '\n' ∉ line := by
  cases number with
  | zero => cases h
  | succ k =>
    cases hpiece : (s.content.splitOn '\n')[k]? with
    | none =>
      rw [line?_eq_none (Or.inr ?_)] at h
      · cases h
      · rw [s.lineCount_eq]
        exact Nat.lt_succ_of_le (List.getElem?_eq_none_iff.mp hpiece)
    | some piece =>
      rw [line?_of_piece hpiece] at h
      obtain rfl := Option.some.inj h
      exact fun hmem => Text.notMem_of_mem_splitOn (List.mem_of_getElem? hpiece)
        ((List.rdropWhile_prefix _ piece).mem hmem)

end Source

/-! ### The caret of a report -/

namespace Diagnostic

variable {d : Diagnostic} {s : Source} {line : Text} {n : Nat}

/-- **The report shows a line, and below it a caret behind `n` blanks.** Both stand behind a margin
as wide as the line number. -/
structure ShowsCaret (d : Diagnostic) (s : Source) (line : Text) (n : Nat) : Prop where
  single : '\n' ∉ line
  report : ∃ remarks, d.render s = d.heading s ++ (d.gutter ++ " |\n".toList ++
    (Text.ofNat d.lineNumber ++ " | ".toList ++ (line ++ '\n' ::
      (d.gutter ++ " | ".toList ++ (Text.blanks n ++ '^' :: '\n' :: remarks)))))

/-- A report shows one line and one caret. -/
theorem ShowsCaret.unique {line' : Text} {n' : Nat} (h : d.ShowsCaret s line n)
    (h' : d.ShowsCaret s line' n') : line = line' ∧ n = n' := by
  obtain ⟨remarks, hreport⟩ := h.report
  obtain ⟨remarks', hreport'⟩ := h'.report
  rw [hreport] at hreport'
  have hlines := List.append_cancel_left (List.append_cancel_left
    (List.append_cancel_left hreport'))
  have hcut := congrArg (Text.cut '\n') hlines
  rw [Text.cut_append h.single, Text.cut_append h'.single, Text.cut_cons_self, Text.cut_cons_self,
    List.append_nil, List.append_nil, Prod.mk.injEq, Option.some.injEq] at hcut
  have hcaret : ∀ k, '^' ∉ Text.blanks k := fun k hmem => by
    cases List.eq_of_mem_replicate hmem
  have hblanks := congrArg (Text.cut '^') (List.append_cancel_left hcut.2)
  rw [Text.cut_append (hcaret n), Text.cut_append (hcaret n'), Text.cut_cons_self,
    Text.cut_cons_self, List.append_nil, List.append_nil, Prod.mk.injEq] at hblanks
  have hlength := congrArg List.length hblanks.1
  rw [Text.blanks, Text.blanks, List.length_replicate, List.length_replicate] at hlength
  exact ⟨hcut.1, hlength⟩

/-- A diagnostic at an offset shows its line, if there is one, with one caret below it. -/
theorem showsCaret_of_line? {offset : Nat} (hspan : d.span = s.spanAt offset)
    (hline : s.line? d.lineNumber = some line) :
    d.ShowsCaret s line (d.span.column.toNat - 1) := by
  refine ⟨Source.feed_notMem_of_line? hline,
    d.notes.flatMap (d.remark "note".toList) ++ d.helps.flatMap (d.remark "help".toList), ?_⟩
  have hcarets : d.carets = Text.blanks (d.span.column.toNat - 1) ++ ['^'] := by
    have hlength : d.span.length = 0 := by
      rw [hspan]
      exact Nat.sub_self offset
    have hblanks : max d.span.column.toNat 1 - 1 = d.span.column.toNat - 1 := by omega
    rw [carets, hlength, hblanks]
    rfl
  unfold render snippet
  simp only [hline, hcarets, List.append_assoc, List.cons_append, List.nil_append]

/-- **The caret of a report is behind `n` blanks,** and the line above it is the one of the
character at an offset, with what stands before that character in front. -/
def CaretBehind (d : Diagnostic) (s : Source) (offset n : Nat) : Prop :=
  ∃ c t u, s.content.dropBytes? offset = some (c :: u) ∧
    d.ShowsCaret s (s.lineBefore offset ++ c :: t) n

theorem caretBehind_of_visibleAt {offset : Nat} (hv : s.content.VisibleAt offset)
    (hspan : d.span = s.spanAt offset) (hline : (s.lineColumn offset).1 < UInt32.size)
    (hcolumn : (s.lineColumn offset).2 < UInt32.size) :
    d.CaretBehind s offset (s.lineBefore offset).byteLength := by
  obtain ⟨number, c, t, u, hplace, hshown, hhere⟩ := Source.exists_line_lineBefore hv
  rw [hplace] at hline hcolumn
  have hl : d.span.line.toNat = number + 1 := by
    rw [hspan, Source.spanAt, Source.span, hplace]
    exact UInt32.toNat_ofNat_of_lt' hline
  have hc : d.span.column.toNat = (s.lineBefore offset).byteLength + 1 := by
    rw [hspan, Source.spanAt, Source.span, hplace]
    exact UInt32.toNat_ofNat_of_lt' hcolumn
  have hnumber : d.lineNumber = number + 1 := by
    unfold lineNumber
    omega
  rw [← hnumber] at hshown
  have hcaret := showsCaret_of_line? hspan hshown
  rw [hc, Nat.add_sub_cancel] at hcaret
  exact ⟨c, t, u, hhere, hcaret⟩

/-- So the caret is under the character exactly if all characters before it in its line are of one
byte. -/
theorem CaretBehind.under_iff {offset : Nat}
    (h : d.CaretBehind s offset (s.lineBefore offset).byteLength) :
    d.CaretBehind s offset (s.lineBefore offset).length ↔
      ∀ c ∈ s.lineBefore offset, c.toNat < 0x80 := by
  rw [← Text.byteLength_eq_length_iff]
  constructor
  · rintro ⟨_, _, _, _, hunder⟩
    obtain ⟨_, _, _, _, hbehind⟩ := h
    exact (hbehind.unique hunder).2
  · intro heq
    rw [← heq]
    exact h

end Diagnostic

/-- The line and column of an offset fit in 32 bits. -/
def Source.Fits (s : Source) (offset : Nat) : Prop :=
  (s.lineColumn offset).1 < UInt32.size ∧ (s.lineColumn offset).2 < UInt32.size

/-- **The caret is behind as many blanks as there are bytes before the offending character** in its
line, and so it stands under that character exactly if these bytes are one character each. This
holds of every error of a scan that starts on a character boundary, and of every error of rendering
a text, wherever line and column fit in 32 bits. -/
theorem caret_behind_bytes {s : Source} :
    (∀ start keepBlanks e, s.content.IsBoundary start →
      scan s.content start keepBlanks = .error e → s.Fits e.offset →
      (e.diagnostic s).CaretBehind s e.offset (s.lineBefore e.offset).byteLength ∧
      ((e.diagnostic s).CaretBehind s e.offset (s.lineBefore e.offset).length ↔
        ∀ c ∈ s.lineBefore e.offset, c.toNat < 0x80)) ∧
    ∀ e, render s.content = .error e → ∃ d offset,
      e.diagnostic? s = some d ∧ e.offset? = some offset ∧ (s.Fits offset →
        d.CaretBehind s offset (s.lineBefore offset).byteLength ∧
        (d.CaretBehind s offset (s.lineBefore offset).length ↔
          ∀ c ∈ s.lineBefore offset, c.toNat < 0x80)) := by
  refine ⟨fun start keepBlanks e hstart h hfits => ?_, fun e h => ?_⟩
  · have hv := Lexer.visibleAt_of_error (scan_error hstart.canStart h)
    have hbehind := Diagnostic.caretBehind_of_visibleAt (d := e.diagnostic s) hv rfl hfits.1 hfits.2
    exact ⟨hbehind, hbehind.under_iff⟩
  · obtain ⟨offset, hoffset, hv⟩ := visibleAt_of_render_error h
    obtain ⟨d, hd, hspan⟩ := RenderError.exists_diagnostic_spanAt hoffset s
    refine ⟨d, offset, hd, hoffset, fun hfits => ?_⟩
    have hbehind := Diagnostic.caretBehind_of_visibleAt hv hspan hfits.1 hfits.2
    exact ⟨hbehind, hbehind.under_iff⟩

/-- Behind a longer character in the second line, in a scan and in a string to be rendered. -/
theorem caret_behind_bytes_second_line :
    let s : Source := ⟨"a.st".toList, "x\r\n$é '\r".toList⟩
    let r : Source := ⟨"b.st".toList, "#aé\n\x60é\x60<-".toList⟩
    (ScanError.diagnostic ⟨.unknownCharacter '\'', 7⟩ s).CaretBehind s 7 4 ∧
    ∃ d, (RenderError.unsupported (.unknownOperator "<-".toList) (some 9)).diagnostic? r = some d ∧
      d.CaretBehind r 9 4 ∧ ¬ d.CaretBehind r 9 3 := by
  intro s r
  have hscanned : ((Lexer.ofOffset s.content 0).withBlanks false).drive
      (List.replicate 3 .nextToken) = ([⟨⟨.identifier, ['x']⟩, 0, 1⟩, ⟨⟨.char, ['é']⟩, 3, 6⟩],
        some (.error ⟨.unknownCharacter '\'', 7⟩)) := by decide +kernel
  have hscan := scan_of_drive (Or.inr (by decide)) false hscanned
  have hdrive : ((Lexer.ofOffset r.content 0).withBlanks true).drive
      (List.replicate 5 .nextToken) =
      ([⟨⟨.symbol, ['a', 'é']⟩, 0, 4⟩, ⟨⟨.whitespace, ['\n']⟩, 4, 5⟩, ⟨⟨.string, ['é']⟩, 5, 9⟩,
        ⟨⟨.special, "<-".toList⟩, 9, 11⟩], some (.ok 11)) := by decide +kernel
  have hrender : render r.content =
      .error (.unsupported (.unknownOperator "<-".toList) (some 9)) := by
    rw [render, Lexer.placedTokens_of_drive hdrive]
    rfl
  have hbefore : s.lineBefore 7 = "$é ".toList := by decide +kernel
  have hbefore' : r.lineBefore 9 = "\x60é\x60".toList := by decide +kernel
  have hfits : s.Fits 7 := ⟨by decide +kernel, by decide +kernel⟩
  have hfits' : r.Fits 9 := ⟨by decide +kernel, by decide +kernel⟩
  obtain ⟨hbehind, -⟩ :=
    (caret_behind_bytes (s := s)).1 0 false _ s.content.isBoundary_zero hscan hfits
  obtain ⟨d, offset, hd, hoffset, hcaret⟩ := (caret_behind_bytes (s := r)).2 _ hrender
  obtain rfl : 9 = offset := Option.some.inj hoffset
  obtain ⟨hbehind', hunder⟩ := hcaret hfits'
  rw [hbefore] at hbehind
  rw [hbefore'] at hbehind' hunder
  exact ⟨hbehind, d, hd, hbehind', fun h => absurd (hunder.mp h 'é' (by decide)) (by decide)⟩

/-- **The caret can stand apart from the offending character.** Below the line `$é <` it is behind
four blanks, but three characters precede the last one. -/
theorem caret_apart :
    let s : Source := ⟨"a.st".toList, "$é <".toList⟩
    scan s.content 0 false = .error ⟨.trailingLess, 4⟩ ∧ s.lineBefore 4 = "$é ".toList ∧
      (ScanError.diagnostic ⟨.trailingLess, 4⟩ s).CaretBehind s 4 4 ∧
      ¬ (ScanError.diagnostic ⟨.trailingLess, 4⟩ s).CaretBehind s 4 (s.lineBefore 4).length := by
  intro s
  have hdrive : ((Lexer.ofOffset s.content 0).withBlanks false).drive
      (List.replicate 2 .nextToken) =
      ([⟨⟨.char, ['é']⟩, 0, 3⟩], some (.error ⟨.trailingLess, 4⟩)) := by decide +kernel
  have hscan := scan_of_drive (Or.inr (by decide)) false hdrive
  have hbefore : s.lineBefore 4 = "$é ".toList := by decide
  have hv := Lexer.visibleAt_of_error (scan_error s.content.isBoundary_zero.canStart hscan)
  have hbehind := Diagnostic.caretBehind_of_visibleAt
    (d := ScanError.diagnostic ⟨.trailingLess, 4⟩ s) hv rfl (by decide) (by decide)
  refine ⟨hscan, hbefore, ?_, fun hunder => ?_⟩
  · rw [hbefore] at hbehind
    exact hbehind
  · have hascii := hbehind.under_iff.mp hunder
    rw [hbefore] at hascii
    exact absurd (hascii 'é' (by decide)) (by decide)

end Smalltalk
