import Mathlib.Data.List.DropRight
import Smalltalk.Proofs.Lines

/-! # Lines are the pieces of a source

Cut at its line feeds, a source falls into pieces, one more than there are line feeds. The table of
line starts cuts nothing, it only tells offsets; but between the offset of a line and that of the
next one stands a piece with the line feed behind it, and in the end the last piece. So what the
source gives as a line is a piece without the carriage returns at its end.

* `Text.exists_around_piece`: a piece, with as many marks before it as pieces.
* `Source.exists_lineAt_of_piece`: so the pieces of a source are its lines, in order.
* `Source.lines_are_pieces`: and they are counted, found and looked up as such. -/

namespace Smalltalk

/-! ### Pieces of a text -/

namespace Text

theorem splitAll_eq_splitOn (t : Text) (c : Char) : t.splitAll c = t.splitOn c := by
  induction t with
  | nil => rfl
  | cons d t ih =>
    rw [splitAll, List.splitOn_cons_eq_if_modifyHead, ih]
    by_cases hd : d = c
    · simp [hd]
    · rw [if_neg hd, if_neg (by simpa using hd)]
      cases h : t.splitOn c with
      | nil => exact absurd h (List.splitOn_ne_nil c t)
      | cons part parts => rfl

theorem notMem_of_mem_splitOn {t piece : Text} {c : Char} (h : piece ∈ t.splitOn c) : c ∉ piece :=
  notMem_of_mem_splitAll (splitAll_eq_splitOn t c ▸ h)

theorem length_splitOn (t : Text) (c : Char) : (t.splitOn c).length = t.count c + 1 := by
  induction t with
  | nil => rfl
  | cons d t ih =>
    rw [List.splitOn_cons_eq_if_modifyHead, List.count_cons]
    split
    · rw [List.length_cons, ih]
    · rw [List.length_modifyHead, ih, Nat.add_zero]

/-- Joined pieces around one of them: each one before it ends with the mark, and each one behind it
starts with it. -/
theorem intercalate_append_cons (c : Char) (before : List Text) (piece : Text)
    (after : List Text) :
    [c].intercalate (before ++ piece :: after) =
      before.flatMap (· ++ [c]) ++ (piece ++ after.flatMap (c :: ·)) := by
  induction before with
  | nil =>
    induction after generalizing piece with
    | nil => simp
    | cons next after ih =>
      rw [List.nil_append, List.intercalate_cons_cons]
      simpa using ih next
  | cons first before ih =>
    obtain ⟨next, rest, hrest⟩ : ∃ next rest, before ++ piece :: after = next :: rest :=
      List.exists_cons_of_ne_nil (by simp)
    rw [List.cons_append, hrest, List.intercalate_cons_cons, ← hrest, ih]
    simp

theorem count_flatMap_concat {c : Char} {pieces : List Text} (h : ∀ piece ∈ pieces, c ∉ piece) :
    (pieces.flatMap (· ++ [c])).count c = pieces.length := by
  induction pieces with
  | nil => rfl
  | cons piece pieces ih =>
    rw [List.forall_mem_cons] at h
    rw [List.flatMap_cons, List.count_append, List.count_append, ih h.2,
      List.count_eq_zero_of_not_mem h.1, List.count_singleton_self, List.length_cons]
    omega

/-- **A piece stands between two marks,** or at an end of the text, and there are as many marks
before it as pieces. -/
theorem exists_around_piece {t piece : Text} {c : Char} {k : Nat}
    (h : (t.splitOn c)[k]? = some piece) : ∃ front back, t = front ++ (piece ++ back) ∧
      (∀ d ∈ front.getLast?, d = c) ∧ (∀ d ∈ back.head?, d = c) ∧ front.count c = k := by
  obtain ⟨hk, hpiece⟩ := List.getElem?_eq_some_iff.mp h
  have hpieces : t.splitOn c = (t.splitOn c).take k ++ piece :: (t.splitOn c).drop (k + 1) := by
    rw [← hpiece, List.getElem_cons_drop, List.take_append_drop]
  have hbefore : ∀ d ∈ (t.splitOn c).take k, c ∉ d := fun d hd =>
    notMem_of_mem_splitOn (List.mem_of_mem_take hd)
  refine ⟨((t.splitOn c).take k).flatMap (· ++ [c]),
    ((t.splitOn c).drop (k + 1)).flatMap (c :: ·), ?_, fun d hd => ?_, fun d hd => ?_, ?_⟩
  · rw [← intercalate_append_cons, ← hpieces, List.intercalate_splitOn]
  · rcases List.eq_nil_or_concat ((t.splitOn c).take k) with hnil | ⟨pieces, last, hlast⟩
    · simp [hnil] at hd
    · rw [hlast] at hd
      simpa [eq_comm] using hd
  · cases hafter : (t.splitOn c).drop (k + 1) with
    | nil => simp [hafter] at hd
    | cons next after =>
      rw [hafter] at hd
      simpa [eq_comm] using hd
  · rw [count_flatMap_concat hbefore, List.length_take, Nat.min_eq_left hk.le]

end Text

/-! ### Lines of a source -/

namespace Source

variable {s : Source}

theorem lineCount_eq (s : Source) : s.lineCount = (s.content.splitOn '\n').length := by
  rw [lineCount, lineStarts, List.length_cons, length_startsBehindFeeds, Text.length_splitOn]

/-- **A piece of a source is a line of it,** with as many line feeds before it as pieces. -/
theorem exists_lineAt_of_piece {piece : Text} {k : Nat}
    (h : (s.content.splitOn '\n')[k]? = some piece) :
    ∃ front back, s.LineAt front piece back ∧ front.count '\n' = k := by
  obtain ⟨front, back, hcontent, hfront, hback, hcount⟩ := Text.exists_around_piece h
  have hpiece : '\n' ∉ piece := Text.notMem_of_mem_splitOn (List.mem_of_getElem? h)
  exact ⟨front, back, ⟨hcontent, hfront, hpiece, hback⟩, hcount⟩

/-- A line has no line feed that could be cut off. -/
theorem trimLineEnd_of_notMem {t : Text} (h : '\n' ∉ t) :
    trimLineEnd t = t.rdropWhile (· = '\r') := by
  have hreverse : '\n' ∉ t.reverse := by rwa [List.mem_reverse]
  unfold trimLineEnd List.rdropWhile
  congr 1
  generalize t.reverse = r at hreverse ⊢
  induction r with
  | nil => rfl
  | cons c r ih =>
    rw [List.mem_cons, not_or] at hreverse
    simp [List.dropWhile_cons, Ne.symm hreverse.1, ih hreverse.2]

theorem line?_of_piece {piece : Text} {k : Nat} (h : (s.content.splitOn '\n')[k]? = some piece) :
    s.line? (k + 1) = some (piece.rdropWhile (· = '\r')) := by
  obtain ⟨front, back, hline, rfl⟩ := exists_lineAt_of_piece h
  rw [hline.line?_eq, trimLineEnd_of_notMem hline.line]

theorem line?_eq_none {number : Nat} (h : number = 0 ∨ s.lineCount < number) :
    s.line? number = none := by
  unfold line?
  split
  · rfl
  · have hbehind : s.lineCount ≤ number - 1 := by omega
    rw [lineStart?, List.getElem?_eq_none hbehind, Option.bind_none]

/-- A line is looked up between two character boundaries. -/
theorem boundaries_of_lineStart? {index start : Nat} (h : s.lineStart? index = some start) :
    start ≤ (s.lineStart? (index + 1)).getD s.content.byteLength ∧
    (s.lineStart? (index + 1)).getD s.content.byteLength ≤ s.content.byteLength ∧
    s.content.IsBoundary start ∧
    s.content.IsBoundary ((s.lineStart? (index + 1)).getD s.content.byteLength) := by
  have hindex : index < (s.content.splitOn '\n').length := by
    rw [← s.lineCount_eq]
    exact (List.getElem?_eq_some_iff.mp h).1
  obtain ⟨front, back, hline, rfl⟩ := exists_lineAt_of_piece (List.getElem?_eq_getElem hindex)
  have hcontent := hline.content_eq
  obtain rfl : front.byteLength = start := Option.some.inj (hline.lineStart?_eq.symm.trans h)
  rw [hline.stop_eq]
  generalize _ ++ back.take 1 = w at hcontent ⊢
  refine ⟨Nat.le_add_right .., ?_, ?_, ?_⟩
  · rw [hcontent, Text.byteLength_append, Text.byteLength_append]
    omega
  · exact Option.isSome_iff_exists.mpr ⟨_, Text.dropBytes?_eq_some_iff.mpr ⟨front, hcontent, rfl⟩⟩
  · refine Option.isSome_iff_exists.mpr ⟨back.drop 1, Text.dropBytes?_eq_some_iff.mpr
      ⟨front ++ w, ?_, Text.byteLength_append ..⟩⟩
    rw [hcontent, List.append_assoc]

/-- **Lines are the pieces of a source.** There are as many lines as pieces between line feeds, and
each line is the piece with its number, without the carriage returns at its end; no other number
has a line. A line is always looked up within the source, from one character boundary to another. -/
theorem lines_are_pieces (s : Source) :
    s.lineCount = (s.content.splitOn '\n').length ∧
    (∀ number, 1 ≤ number → number ≤ s.lineCount → ∃ piece,
      (s.content.splitOn '\n')[number - 1]? = some piece ∧
      s.line? number = some (piece.rdropWhile (· = '\r'))) ∧
    (∀ number, number = 0 ∨ s.lineCount < number → s.line? number = none) ∧
    ∀ index start, s.lineStart? index = some start →
      start ≤ (s.lineStart? (index + 1)).getD s.content.byteLength ∧
      (s.lineStart? (index + 1)).getD s.content.byteLength ≤ s.content.byteLength ∧
      s.content.IsBoundary start ∧
      s.content.IsBoundary ((s.lineStart? (index + 1)).getD s.content.byteLength) := by
  refine ⟨s.lineCount_eq, fun number hlow hhigh => ?_, fun number h => line?_eq_none h,
    fun index start h => boundaries_of_lineStart? h⟩
  obtain ⟨k, rfl⟩ := Nat.exists_eq_add_of_le' hlow
  rw [s.lineCount_eq] at hhigh
  exact ⟨_, List.getElem?_eq_getElem hhigh, line?_of_piece (List.getElem?_eq_getElem hhigh)⟩

/-- Carriage returns in front of a line feed, an empty line, and longer characters on both sides. -/
theorem lines_are_pieces_returns :
    let s : Source := ⟨[], "é\r\r\n\né\ra\r".toList⟩
    s.lineCount = 3 ∧ s.line? 1 = some ['é'] ∧ s.line? 2 = some [] ∧
      s.line? 3 = some ['é', '\r', 'a'] ∧ s.line? 4 = none ∧
      s.content.IsBoundary 5 ∧ s.content.IsBoundary 6 := by
  intro s
  obtain ⟨hcount, hpieces, hnone, hbounds⟩ := lines_are_pieces s
  obtain ⟨first, hfirst, hline₁⟩ := hpieces 1 (by decide) (by decide)
  obtain ⟨second, hsecond, hline₂⟩ := hpieces 2 (by decide) (by decide)
  obtain ⟨third, hthird, hline₃⟩ := hpieces 3 (by decide) (by decide)
  obtain ⟨-, -, hfrom, hto⟩ := hbounds 1 5 (by decide)
  cases hfirst
  cases hsecond
  cases hthird
  exact ⟨by decide, hline₁, hline₂, hline₃, hnone 4 (by decide), hfrom, hto⟩

end Source

end Smalltalk
