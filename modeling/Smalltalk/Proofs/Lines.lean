import Smalltalk.Proofs.Tiling
import Smalltalk.Source

/-! # The lines of a source

Lines are found by a table of the offsets where they start. Cut a line out of a source: what is
before it is empty or ends with a line feed, and what is behind it is empty or starts with one. Then
the table, the line and column of every offset in the line, and the line itself are known.

* `Source.LineAt`: a line, with what is before and behind it.
* `Source.exists_lineAt`: every place of a source is in a line.
* `Source.LineAt.lineStart?_eq`, `Source.LineAt.lineColumn_eq`, `Source.LineAt.line?_eq`: what the
  source says about a line. -/

namespace Smalltalk

namespace Source

/-! ### The table of line starts -/

theorem startsBehindFeeds_append (n : Nat) (t u : Text) :
    startsBehindFeeds n (t ++ u) =
      startsBehindFeeds n t ++ startsBehindFeeds (n + t.byteLength) u := by
  induction t generalizing n with
  | nil => rfl
  | cons c t ih =>
    rw [List.cons_append, startsBehindFeeds, startsBehindFeeds, ih, Text.byteLength_cons,
      Nat.add_assoc]
    split <;> rfl

theorem startsBehindFeeds_of_notMem {t : Text} (h : '\n' ∉ t) (n : Nat) :
    startsBehindFeeds n t = [] := by
  induction t generalizing n with
  | nil => rfl
  | cons c t ih =>
    have hc : c ≠ '\n' := fun hc => h (by simp [hc])
    rw [startsBehindFeeds, if_neg hc, ih fun ht => h (by simp [ht])]

theorem length_startsBehindFeeds (n : Nat) (t : Text) :
    (startsBehindFeeds n t).length = t.count '\n' := by
  induction t generalizing n with
  | nil => rfl
  | cons c t ih =>
    rw [startsBehindFeeds, List.count_cons]
    by_cases hc : c = '\n'
    · simp [hc, ih]
    · simp [hc, ih]

theorem mem_startsBehindFeeds {n m : Nat} {t : Text} (h : m ∈ startsBehindFeeds n t) :
    n < m ∧ m ≤ n + t.byteLength := by
  induction t generalizing n with
  | nil => simp [startsBehindFeeds] at h
  | cons c t ih =>
    have hsize := Char.utf8Size_pos c
    rw [Text.byteLength_cons]
    have hrest : m ∈ startsBehindFeeds (n + c.utf8Size) t →
        n < m ∧ m ≤ n + (c.utf8Size + Text.byteLength t) := by
      intro h
      have := ih h
      omega
    rw [startsBehindFeeds] at h
    split at h
    · rcases List.mem_cons.mp h with rfl | h
      · omega
      · exact hrest h
    · exact hrest h

/-- The last start of a text that ends with a line feed is its end. -/
theorem getLast?_starts {t : Text} (h : ∀ c ∈ t.getLast?, c = '\n') :
    (0 :: startsBehindFeeds 0 t).getLast? = some t.byteLength := by
  rcases List.eq_nil_or_concat t with rfl | ⟨t, c, rfl⟩
  · rfl
  · obtain rfl : c = '\n' := h c (by simp)
    have hfeed : startsBehindFeeds (Text.byteLength t) ['\n'] = [Text.byteLength t + 1] := rfl
    have hlength : Text.byteLength (t ++ ['\n']) = Text.byteLength t + 1 :=
      Text.byteLength_append ..
    rw [List.concat_eq_append, startsBehindFeeds_append, Nat.zero_add, hfeed, hlength,
      ← List.cons_append, List.getLast?_concat]

/-! ### One line -/

/-- **`line` is a line of the source,** with `front` before it and `back` behind it. -/
structure LineAt (s : Source) (front line back : Text) : Prop where
  content : s.content = front ++ (line ++ back)
  front : ∀ c ∈ front.getLast?, c = '\n'
  line : '\n' ∉ line
  back : ∀ c ∈ back.head?, c = '\n'

/-- A text is a front part that ends with a line feed, or nothing, and a part without line feeds. -/
theorem exists_lastLine (t : Text) :
    ∃ front part, t = front ++ part ∧ (∀ c ∈ front.getLast?, c = '\n') ∧ '\n' ∉ part := by
  induction t with
  | nil => exact ⟨[], [], rfl, by simp, by simp⟩
  | cons c t ih =>
    obtain ⟨front, part, rfl, hfront, hpart⟩ := ih
    cases front with
    | nil =>
      by_cases hc : c = '\n'
      · exact ⟨[c], part, rfl, by simp [hc], hpart⟩
      · exact ⟨[], c :: part, rfl, by simp, by simp [hpart, Ne.symm hc]⟩
    | cons d front => exact ⟨c :: d :: front, part, rfl, by simpa using hfront, hpart⟩

/-- **Every place of a source is in a line.** -/
theorem exists_lineAt {s : Source} {before after : Text} (h : s.content = before ++ after) :
    ∃ front t u back, before = front ++ t ∧ after = u ++ back ∧ s.LineAt front (t ++ u) back := by
  obtain ⟨front, t, rfl, hfront, ht⟩ := exists_lastLine before
  have hu : '\n' ∉ after.takeWhile (· ≠ '\n') := fun hmem => by
    simpa using List.all_eq_true.mp List.all_takeWhile _ hmem
  refine ⟨front, t, after.takeWhile (· ≠ '\n'), after.dropWhile (· ≠ '\n'), rfl,
    List.takeWhile_append_dropWhile.symm, ?_, hfront, ?_, fun c hc => ?_⟩
  · rw [h, List.append_assoc, List.append_assoc, List.takeWhile_append_dropWhile]
  · rw [List.mem_append, not_or]
    exact ⟨ht, hu⟩
  · have hhead := List.head?_dropWhile_not (· ≠ '\n') after
    rw [Option.mem_def.mp hc] at hhead
    simpa using hhead

namespace LineAt

variable {s : Source} {front line back : Text}

theorem lineStarts_eq (h : s.LineAt front line back) :
    s.lineStarts = (0 :: startsBehindFeeds 0 front) ++
      startsBehindFeeds (front.byteLength + line.byteLength) back := by
  rw [lineStarts, h.content, startsBehindFeeds_append, startsBehindFeeds_append,
    startsBehindFeeds_of_notMem h.line, List.nil_append, Nat.zero_add]
  rfl

theorem length_starts (front : Text) :
    (0 :: startsBehindFeeds 0 front).length = front.count '\n' + 1 := by
  rw [List.length_cons, length_startsBehindFeeds]

/-- A line starts behind everything that is before it. -/
theorem lineStart?_eq (h : s.LineAt front line back) :
    s.lineStart? (front.count '\n') = some front.byteLength := by
  have hlast := getLast?_starts h.front
  rw [List.getLast?_eq_getElem?, length_starts, Nat.add_sub_cancel] at hlast
  rw [lineStart?, h.lineStarts_eq, List.getElem?_append_left, hlast]
  rw [length_starts]
  exact Nat.lt_succ_self _

/-- **The line and column of every offset in a line,** its end included. -/
theorem lineColumn_eq (h : s.LineAt front line back) {offset : Nat}
    (hlow : front.byteLength ≤ offset) (hhigh : offset ≤ front.byteLength + line.byteLength) :
    s.lineColumn offset = (front.count '\n' + 1, offset - front.byteLength + 1) := by
  have hbefore : ∀ n ∈ 0 :: startsBehindFeeds 0 front, decide (n ≤ offset) = true := by
    intro n hn
    rcases List.mem_cons.mp hn with rfl | hn
    · simp
    · have := mem_startsBehindFeeds hn
      simp only [decide_eq_true_eq]
      omega
  have hbehind : (startsBehindFeeds (front.byteLength + line.byteLength) back).takeWhile
      (fun n => decide (n ≤ offset)) = [] := by
    rcases hstarts : startsBehindFeeds (front.byteLength + line.byteLength) back with _ | ⟨n, ns⟩
    · rfl
    · have hn : n ∈ startsBehindFeeds (front.byteLength + line.byteLength) back := by simp [hstarts]
      have := mem_startsBehindFeeds hn
      exact List.takeWhile_cons_of_neg (by simp only [decide_eq_true_eq]; omega)
  have hstarts : s.lineStarts.takeWhile (fun n => decide (n ≤ offset)) =
      0 :: startsBehindFeeds 0 front := by
    rw [h.lineStarts_eq, List.takeWhile_append_of_pos hbefore, hbehind, List.append_nil]
  have hmin : min offset s.content.byteLength = offset := by
    rw [h.content, Text.byteLength_append, Text.byteLength_append]
    omega
  unfold lineColumn
  simp only [hmin, hstarts, length_starts, List.getLastD_eq_getLast?, getLast?_starts h.front,
    Option.getD_some]

/-- A source around a line and the line feed behind it, if there is one. -/
theorem content_eq (h : s.LineAt front line back) :
    s.content = front ++ ((line ++ back.take 1) ++ back.drop 1) := by
  rw [List.append_assoc, List.take_append_drop, h.content]

/-- The next line starts behind the line feed at the end of a line, and the last line ends where the
source ends. -/
theorem stop_eq (h : s.LineAt front line back) :
    (s.lineStart? (front.count '\n' + 1)).getD s.content.byteLength =
      front.byteLength + Text.byteLength (line ++ back.take 1) := by
  rw [lineStart?, h.lineStarts_eq,
    List.getElem?_append_right (Nat.le_of_eq (length_starts front)), length_starts, Nat.sub_self,
    Text.byteLength_append, h.content]
  rcases back with _ | ⟨c, t⟩
  · simp [startsBehindFeeds]
  · obtain rfl : c = '\n' := h.back c rfl
    rw [← Nat.add_assoc]
    rfl

/-- **A line is found by the number of line feeds before it.** -/
theorem line?_eq (h : s.LineAt front line back) :
    s.line? (front.count '\n' + 1) = some (trimLineEnd line) := by
  rw [line?, if_neg (Nat.succ_ne_zero _), Nat.add_sub_cancel, h.lineStart?_eq, Option.bind_some]
  dsimp only
  rw [h.stop_eq, h.content_eq, Text.slice?_append, Option.map_some]
  rcases back with _ | ⟨c, t⟩
  · simp
  · obtain rfl : c = '\n' := h.back c rfl
    simp [trimLineEnd]

end LineAt

/-! ### The end of a line -/

/-- Only line ends are cut off, and only at the end. -/
theorem trimLineEnd_append {c : Char} (hn : c ≠ '\n') (hr : c ≠ '\r') (t u : Text) :
    trimLineEnd (t ++ c :: u) = t ++ c :: trimLineEnd u := by
  unfold trimLineEnd
  rw [List.reverse_append, List.reverse_cons, List.append_assoc, List.dropWhile_append]
  split
  · next hnil =>
    rw [List.isEmpty_iff.mp hnil]
    simp [hn, hr]
  · simp

theorem byteLength_trimLineEnd_le (t : Text) : (trimLineEnd t).byteLength ≤ t.byteLength := by
  obtain ⟨r, hr⟩ : trimLineEnd t <+: t := by
    unfold trimLineEnd
    rw [← List.reverse_suffix, List.reverse_reverse]
    exact List.dropWhile_suffix _
  have hlength := congrArg Text.byteLength hr
  rw [Text.byteLength_append] at hlength
  omega

theorem byteLength_line?_le {s : Source} {n : Nat} {line : Text} (h : s.line? n = some line) :
    line.byteLength ≤ s.content.byteLength := by
  unfold line? at h
  split at h
  · cases h
  · obtain ⟨start, -, hline⟩ := Option.bind_eq_some_iff.mp h
    obtain ⟨t, ht, rfl⟩ := Option.map_eq_some_iff.mp hline
    obtain ⟨front, back, hs, -⟩ := Text.slice?_eq_some ht
    have hle := byteLength_trimLineEnd_le t
    rw [hs, Text.byteLength_append, Text.byteLength_append]
    omega

end Source

end Smalltalk
