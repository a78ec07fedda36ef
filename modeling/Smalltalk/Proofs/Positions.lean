import Mathlib.Data.Prod.Lex
import Mathlib.Order.Interval.Set.Defs
import Mathlib.Order.Monotone.Defs
import Smalltalk.Proofs.Lines

/-! # Offsets as lines and columns

An offset counts bytes, and it may lie inside a character. A line feed is one byte, and no longer
character has such a byte in its UTF-8 form; so every offset lies in a line, its ends included, and
the lines are told apart by bytes alone:

* the line of an offset is one more than the number of line feeds before it,
* the column is one more than the number of bytes behind the last of them.

`lineColumn_positions` says this of every offset, and that different offsets have different
positions, in the same order. -/

namespace Smalltalk

/-! ### The bytes of a text -/

namespace Text

/-- The bytes of the UTF-8 form. -/
def utf8 (t : Text) : List UInt8 := t.flatMap String.utf8EncodeChar

/-- The byte of a line feed. -/
def feedByte : UInt8 := 10

theorem utf8_append (t u : Text) : utf8 (t ++ u) = t.utf8 ++ u.utf8 := List.flatMap_append

theorem length_utf8 (t : Text) : t.utf8.length = t.byteLength := by
  induction t with
  | nil => rfl
  | cons c t ih =>
    have hcons : utf8 (c :: t) = String.utf8EncodeChar c ++ utf8 t := rfl
    rw [hcons, List.length_append, String.length_utf8EncodeChar, ih, byteLength_cons]

/-- A line feed is the only character with such a byte. -/
theorem feedByte_mem_utf8EncodeChar {c : Char} :
    feedByte ∈ String.utf8EncodeChar c ↔ c = '\n' := by
  have hbyte : ∀ n : ℕ, feedByte = UInt8.ofNat n ↔ n % 256 = 10 := by
    intro n
    rw [← UInt8.toNat_inj, UInt8.toNat_ofNat']
    exact eq_comm
  have hfeed : c = '\n' ↔ c.val.toNat = 10 := by
    rw [← Char.val_inj, ← UInt32.toNat_inj]
    rfl
  rw [hfeed]
  simp only [String.utf8EncodeChar]
  split_ifs <;> simp only [List.mem_cons, List.not_mem_nil, or_false, hbyte] <;> omega

theorem feedByte_mem_utf8 {t : Text} : feedByte ∈ t.utf8 ↔ '\n' ∈ t := by
  simp only [utf8, List.mem_flatMap, feedByte_mem_utf8EncodeChar, exists_eq_right]

theorem count_utf8 (t : Text) : t.utf8.count feedByte = t.count '\n' := by
  induction t with
  | nil => rfl
  | cons c t ih =>
    have hcons : utf8 (c :: t) = String.utf8EncodeChar c ++ utf8 t := rfl
    rw [hcons, List.count_append, ih, List.count_cons]
    by_cases hc : c = '\n'
    · subst hc
      rw [if_pos (beq_self_eq_true _), Nat.add_comm]
      rfl
    · rw [if_neg (by simpa using hc)]
      have hno : feedByte ∉ String.utf8EncodeChar c := fun h => hc (feedByte_mem_utf8EncodeChar.mp h)
      rw [List.count_eq_zero_of_not_mem hno, Nat.zero_add, Nat.add_zero]

/-- The last byte of a text that ends with a line feed. -/
theorem getLast?_utf8 {t : Text} (h : ∀ c ∈ t.getLast?, c = '\n') :
    ∀ b ∈ t.utf8.getLast?, b = feedByte := by
  rcases List.eq_nil_or_concat t with rfl | ⟨t, c, rfl⟩
  · simp [utf8]
  · obtain rfl : c = '\n' := h c (by simp)
    have hlast : utf8 (t.concat '\n') = utf8 t ++ [feedByte] := by
      rw [List.concat_eq_append, utf8_append]
      rfl
    rw [hlast, List.getLast?_concat]
    intro b hb
    exact (Option.some.inj hb).symm

/-- Every offset lies behind some characters and within the next one, if there is one. -/
theorem exists_before {t : Text} {n : ℕ} (h : n ≤ t.byteLength) : ∃ before after,
    t = before ++ after ∧ before.byteLength ≤ n ∧
      ∀ c ∈ after.head?, n < before.byteLength + c.utf8Size := by
  induction t generalizing n with
  | nil => exact ⟨[], [], rfl, Nat.zero_le n, by simp⟩
  | cons c t ih =>
    rw [byteLength_cons] at h
    by_cases hc : n < c.utf8Size
    · refine ⟨[], c :: t, rfl, Nat.zero_le n, fun d hd => ?_⟩
      obtain rfl : c = d := Option.some.inj hd
      rwa [byteLength_nil, Nat.zero_add]
    · obtain ⟨before, after, rfl, hle, hnext⟩ := ih (n := n - c.utf8Size) (by omega)
      refine ⟨c :: before, after, rfl, ?_, fun d hd => ?_⟩
      · rw [byteLength_cons]
        omega
      · have := hnext d hd
        rw [byteLength_cons]
        omega

end Text

namespace Source

open Text

/-! ### Positions by bytes -/

/-- The number of line feeds among the first `n` bytes. -/
def feedsBefore (s : Source) (n : ℕ) : ℕ := (s.content.utf8.take n).count feedByte

/-- The number of bytes behind the last line feed among the first `n` bytes, or of all of them if
there is none. -/
def bytesBehindFeed (s : Source) (n : ℕ) : ℕ :=
  ((s.content.utf8.take n).reverse.takeWhile (· ≠ feedByte)).length

theorem feedsBefore_mono (s : Source) {m n : ℕ} (h : m ≤ n) : s.feedsBefore m ≤ s.feedsBefore n :=
  (List.take_sublist_take_left h).count_le feedByte

/-- **Every offset lies in a line,** its ends included. -/
theorem exists_lineAt_offset {s : Source} {offset : ℕ} (h : offset ≤ s.content.byteLength) :
    ∃ front line back, s.LineAt front line back ∧ front.byteLength ≤ offset ∧
      offset ≤ front.byteLength + line.byteLength := by
  obtain ⟨before, after, hcontent, hle, hnext⟩ := Text.exists_before h
  obtain ⟨front, t, u, back, rfl, rfl, hline⟩ := exists_lineAt hcontent
  rw [byteLength_append] at hle hnext
  refine ⟨front, t ++ u, back, hline, by omega, ?_⟩
  rw [byteLength_append]
  rcases u with _ | ⟨c, u⟩
  · -- the line ends here, and the next character is a line feed of one byte
    rcases back with _ | ⟨d, back⟩
    · have hlength := congrArg byteLength hcontent
      simp only [byteLength_append, byteLength_nil, Nat.add_zero] at hlength ⊢
      omega
    · obtain rfl : d = '\n' := hline.back d rfl
      have hfeed := hnext '\n' rfl
      have hsize : ('\n').utf8Size = 1 := rfl
      rw [byteLength_nil]
      omega
  · have hc := hnext c rfl
    rw [byteLength_cons]
    omega

section LineAt

variable {s : Source} {front line back : Text} (h : s.LineAt front line back) {offset : ℕ}
  (hlow : front.byteLength ≤ offset) (hhigh : offset ≤ front.byteLength + line.byteLength)
include h hlow hhigh

/-- The bytes before an offset in a line: those of the lines before it, and some of its own. -/
theorem LineAt.take_utf8 : s.content.utf8.take offset =
    front.utf8 ++ line.utf8.take (offset - front.byteLength) := by
  rw [h.content, utf8_append, utf8_append, List.take_append, length_utf8,
    List.take_of_length_le (by rwa [length_utf8]), List.take_append_of_le_length]
  rw [length_utf8]
  omega

omit hlow hhigh in
theorem LineAt.feedByte_notMem_take (n : ℕ) : feedByte ∉ line.utf8.take n :=
  fun hmem => h.line (feedByte_mem_utf8.mp (List.mem_of_mem_take hmem))

theorem LineAt.feedsBefore_eq : s.feedsBefore offset = front.count '\n' := by
  unfold feedsBefore
  rw [h.take_utf8 hlow hhigh, List.count_append, count_utf8,
    List.count_eq_zero_of_not_mem (h.feedByte_notMem_take _), Nat.add_zero]

theorem LineAt.bytesBehindFeed_eq : s.bytesBehindFeed offset = offset - front.byteLength := by
  have hline : ∀ b ∈ (line.utf8.take (offset - front.byteLength)).reverse,
      decide (b ≠ feedByte) = true := by
    intro b hb
    have hne : b ≠ feedByte := by
      rintro rfl
      exact h.feedByte_notMem_take _ (List.mem_reverse.mp hb)
    exact decide_eq_true hne
  have hfront : front.utf8.reverse.takeWhile (fun b => decide (b ≠ feedByte)) = [] := by
    have hlast := getLast?_utf8 h.front
    rw [← List.head?_reverse] at hlast
    rcases hbytes : front.utf8.reverse with _ | ⟨b, bs⟩
    · rfl
    · rw [hbytes] at hlast
      obtain rfl := hlast b rfl
      exact List.takeWhile_cons_of_neg (by simp)
  unfold bytesBehindFeed
  rw [h.take_utf8 hlow hhigh, List.reverse_append, List.takeWhile_append_of_pos hline, hfront,
    List.append_nil, List.length_reverse, List.length_take, length_utf8]
  omega

end LineAt

/-! ### Every offset -/

variable (s : Source)

/-- Positions are those of offsets up to the end. -/
theorem lineColumn_min (offset : ℕ) :
    s.lineColumn (min offset s.content.byteLength) = s.lineColumn offset := by
  unfold lineColumn
  rw [min_assoc, min_self]

theorem take_utf8_min (offset : ℕ) :
    s.content.utf8.take (min offset s.content.byteLength) = s.content.utf8.take offset := by
  rw [← length_utf8, List.take_eq_take_iff]
  omega

/-- **The line and column of an offset,** and where that line starts. -/
theorem lineColumn_offset (offset : ℕ) :
    s.lineColumn offset = (s.feedsBefore offset + 1, s.bytesBehindFeed offset + 1) ∧
      ∃ start, s.lineStart? (s.feedsBefore offset) = some start ∧
        start + s.bytesBehindFeed offset = min offset s.content.byteLength := by
  have hle : min offset s.content.byteLength ≤ s.content.byteLength := min_le_right ..
  have hfeeds : s.feedsBefore (min offset s.content.byteLength) = s.feedsBefore offset := by
    unfold feedsBefore
    rw [take_utf8_min]
  have hbytes : s.bytesBehindFeed (min offset s.content.byteLength) =
      s.bytesBehindFeed offset := by
    unfold bytesBehindFeed
    rw [take_utf8_min]
  obtain ⟨front, line, back, hline, hlow, hhigh⟩ := exists_lineAt_offset hle
  rw [hline.feedsBefore_eq hlow hhigh] at hfeeds
  rw [hline.bytesBehindFeed_eq hlow hhigh] at hbytes
  rw [← s.lineColumn_min, ← hfeeds, ← hbytes]
  exact ⟨hline.lineColumn_eq hlow hhigh, _, hline.lineStart?_eq, by omega⟩

/-- Positions follow each other as the offsets do. -/
theorem lineColumn_strictMonoOn :
    StrictMonoOn (fun offset => toLex (s.lineColumn offset)) (Set.Iic s.content.byteLength) := by
  intro m hm n hn hlt
  obtain ⟨hposm, startm, hstartm, hm'⟩ := s.lineColumn_offset m
  obtain ⟨hposn, startn, hstartn, hn'⟩ := s.lineColumn_offset n
  rw [min_eq_left hm] at hm'
  rw [min_eq_left hn] at hn'
  change toLex (s.lineColumn m) < toLex (s.lineColumn n)
  rw [hposm, hposn, Prod.Lex.toLex_lt_toLex]
  rcases (s.feedsBefore_mono hlt.le).lt_or_eq with hfeeds | hfeeds
  · exact Or.inl (by omega)
  · -- offsets in one line have the same start behind them
    rw [hfeeds, hstartn] at hstartm
    have hstart : startn = startm := Option.some.inj hstartm
    exact Or.inr ⟨by omega, by omega⟩

/-- **Offsets and positions correspond.** The line of an offset is one more than the number of line
feeds before it, and its column one more than the number of bytes behind the last of these; so many
bytes before the offset the line starts. An offset past the end stands for the end, and up to there
different offsets have different positions, in the same order. -/
theorem lineColumn_positions :
    (∀ offset,
      s.lineColumn offset = (s.feedsBefore offset + 1, s.bytesBehindFeed offset + 1) ∧
      (s.lineColumn offset).2 - 1 ≤ min offset s.content.byteLength ∧
      s.lineStart? ((s.lineColumn offset).1 - 1) =
        some (min offset s.content.byteLength - ((s.lineColumn offset).2 - 1))) ∧
    StrictMonoOn (fun offset => toLex (s.lineColumn offset)) (Set.Iic s.content.byteLength) := by
  refine ⟨fun offset => ?_, s.lineColumn_strictMonoOn⟩
  obtain ⟨hpos, start, hstart, hoffset⟩ := s.lineColumn_offset offset
  rw [hpos]
  dsimp only
  rw [Nat.add_sub_cancel, Nat.add_sub_cancel, hstart, ← hoffset, Nat.add_sub_cancel]
  exact ⟨rfl, Nat.le_add_left .., rfl⟩

/-- Inside a character, on a line feed, and at the start of an empty last line. -/
example : (Source.mk [] ['a', 'é', '\n']).lineColumn 2 = (1, 3) ∧
    (Source.mk [] ['a', 'é', '\n']).lineColumn 3 = (1, 4) ∧
    (Source.mk [] ['a', 'é', '\n']).lineColumn 4 = (2, 1) := by decide

end Source

end Smalltalk
