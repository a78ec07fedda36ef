import Smalltalk.Script

/-! # Lines of a script and line comments

A line of a script ends with a line feed, a carriage return, both of them in this order, or one of
the separators U+2028 and U+2029, and a line comment ends with its line. A comment is rendered with
a mark in front of each of its lines, where only line feeds end a line. So the other line ends of
the comment are the ones that matter: what stands behind them is commented only if it starts with
the mark by itself.

* `Script.lines`: the lines of a script.
* `Script.lineComments_eq`: a rendered comment is its text with a mark in front and one behind each
  line feed.
* `Text.StaysCommented`: behind every other line end of the text stands a mark.
* `lines_lineComments`: these are the texts whose rendering has a mark in front of every line. -/

namespace Smalltalk

/-! ### Lines -/

namespace Script

/-- The characters that end a line of a script. -/
def isLineTerminator (c : Char) : Bool :=
  c = '\n' || c = '\r' || c = '\u2028' || c = '\u2029'

/-- **The lines of a script,** without their ends. A carriage return and a line feed behind it end
one line. -/
def lines : Text → List Text
  | [] => [[]]
  | '\r' :: '\n' :: t => [] :: lines t
  | c :: t => if isLineTerminator c then [] :: lines t else (lines t).modifyHead (c :: ·)

/-- The mark of a line comment, with the blank behind it. -/
def mark : Text := "// ".toList

theorem lines_crlf (t : Text) : lines ('\r' :: '\n' :: t) = [] :: lines t := rfl

theorem lines_cons {c : Char} {t : Text} (h : ¬ (c = '\r' ∧ t.head? = some '\n')) :
    lines (c :: t) =
      if isLineTerminator c then [] :: lines t else (lines t).modifyHead (c :: ·) := by
  rw [lines]
  rintro t' rfl rfl
  exact h ⟨rfl, rfl⟩

theorem lines_of_not_isLineTerminator {c : Char} (h : isLineTerminator c = false) (t : Text) :
    lines (c :: t) = (lines t).modifyHead (c :: ·) := by
  have hc : ¬ (c = '\r' ∧ t.head? = some '\n') := by
    rintro ⟨rfl, -⟩
    cases h
  rw [lines_cons hc, h]
  rfl

/-- The first line is the text up to the first line end. -/
theorem exists_lines (t : Text) :
    ∃ others, lines t = t.takeWhile (fun c => !isLineTerminator c) :: others := by
  fun_induction lines t with
  | case1 => exact ⟨[], rfl⟩
  | case2 t ih => exact ⟨lines t, rfl⟩
  | case3 c t _ hc ih => exact ⟨lines t, by simp [hc]⟩
  | case4 c t _ hc ih =>
    obtain ⟨others, ho⟩ := ih
    exact ⟨others, by simp [ho, hc]⟩

/-- Every line has the mark of a line comment in front of it. -/
def Commented (t : Text) : Prop := ∀ l ∈ lines t, mark <+: l

theorem lines_mark_append (t : Text) : lines (mark ++ t) = (lines t).modifyHead (mark ++ ·) := by
  obtain ⟨others, ho⟩ := exists_lines t
  have hm : mark ++ t = '/' :: '/' :: ' ' :: t := rfl
  rw [hm, lines_of_not_isLineTerminator rfl, lines_of_not_isLineTerminator rfl,
    lines_of_not_isLineTerminator rfl, ho]
  rfl

/-- With a mark in front, only the other lines matter. -/
theorem commented_mark_append (t : Text) :
    Commented (mark ++ t) ↔ ∀ l ∈ (lines t).tail, mark <+: l := by
  obtain ⟨others, ho⟩ := exists_lines t
  unfold Commented
  rw [lines_mark_append, ho]
  simp

theorem prefix_takeWhile_iff {p : Char → Bool} {m t : Text} (hm : ∀ c ∈ m, p c) :
    m <+: t.takeWhile p ↔ m <+: t := by
  constructor
  · intro h
    exact h.trans (List.takeWhile_prefix p)
  · rintro ⟨r, rfl⟩
    rw [List.takeWhile_append_of_pos hm]
    exact List.prefix_append m _

/-- All lines are commented if the text starts with a mark and its other lines are. -/
theorem commented_iff (t : Text) :
    Commented t ↔ mark <+: t ∧ ∀ l ∈ (lines t).tail, mark <+: l := by
  obtain ⟨others, ho⟩ := exists_lines t
  have hfirst : mark <+: t.takeWhile (fun c => !isLineTerminator c) ↔ mark <+: t :=
    prefix_takeWhile_iff (List.all_eq_true.mp (by decide))
  unfold Commented
  rw [ho]
  simp [hfirst]

/-! ### Rendered comments -/

/-- What stands behind the first mark of a rendered comment. -/
def commentBody (v : Text) : Text := v.flatMap fun c => if c = '\n' then '\n' :: mark else [c]

theorem commentBody_feed (v : Text) :
    commentBody ('\n' :: v) = '\n' :: (mark ++ commentBody v) := rfl

theorem commentBody_cons {c : Char} (h : c ≠ '\n') (v : Text) :
    commentBody (c :: v) = c :: commentBody v := by
  simp [commentBody, h]

theorem head?_commentBody (v : Text) : (commentBody v).head? = v.head? := by
  cases v with
  | nil => rfl
  | cons c v =>
    by_cases hc : c = '\n'
    · rw [hc, commentBody_feed]
      rfl
    · rw [commentBody_cons hc]
      rfl

/-- The first line of a comment, and its other lines behind line feeds. -/
theorem lineComments_of_splitAll {v part : Text} {parts : List Text}
    (h : v.splitAll '\n' = part :: parts) :
    lineComments v = mark ++ (part ++ parts.flatMap fun p => '\n' :: (mark ++ p)) := by
  unfold lineComments
  rw [h]
  clear h
  induction parts generalizing part with
  | nil => simp [mark]
  | cons p ps ih =>
    have hcons := @ih p
    simp only [List.map_cons] at hcons ⊢
    rw [List.intercalate_cons_cons, hcons]
    simp [mark]

theorem lineComments_feed (v : Text) :
    lineComments ('\n' :: v) = mark ++ '\n' :: lineComments v := by
  obtain ⟨part, parts, h⟩ := v.exists_splitAll '\n'
  have hsplit : Text.splitAll '\n' ('\n' :: v) = [] :: part :: parts := by
    rw [← h]
    rfl
  rw [lineComments_of_splitAll hsplit, lineComments_of_splitAll h]
  simp

theorem lineComments_cons {c : Char} (h : c ≠ '\n') {v body : Text}
    (hv : lineComments v = mark ++ body) : lineComments (c :: v) = mark ++ c :: body := by
  obtain ⟨part, parts, hp⟩ := v.exists_splitAll '\n'
  have hsplit : Text.splitAll '\n' (c :: v) = (c :: part) :: parts := by
    rw [Text.splitAll, if_neg h, hp]
  rw [lineComments_of_splitAll hp] at hv
  rw [lineComments_of_splitAll hsplit, ← List.append_cancel_left hv]
  rfl

/-- A rendered comment is its text with a mark in front and one behind each line feed. -/
theorem lineComments_eq (v : Text) : lineComments v = mark ++ commentBody v := by
  induction v with
  | nil => rfl
  | cons c v ih =>
    by_cases hc : c = '\n'
    · subst hc
      rw [lineComments_feed, ih, commentBody_feed]
    · rw [lineComments_cons hc ih, commentBody_cons hc]

theorem prefix_commentBody_iff {m v : Text} (hm : '\n' ∉ m) : m <+: commentBody v ↔ m <+: v := by
  induction m generalizing v with
  | nil => simp
  | cons c m ih =>
    have hc : c ≠ '\n' := fun h => hm (by simp [h])
    have hm' : '\n' ∉ m := fun h => hm (by simp [h])
    cases v with
    | nil => exact Iff.rfl
    | cons d v =>
      by_cases hd : d = '\n'
      · rw [hd, commentBody_feed, List.cons_prefix_cons, List.cons_prefix_cons]
        simp [hc]
      · rw [commentBody_cons hd, List.cons_prefix_cons, List.cons_prefix_cons, ih hm']

end Script

/-! ### The other line ends -/

/-- **Behind every line end of the text that is no line feed stands a mark,** or a line feed if it
is a carriage return. -/
def Text.StaysCommented (v : Text) : Prop :=
  ∀ front c back, v = front ++ c :: back → c = '\r' ∨ c = '\u2028' ∨ c = '\u2029' →
    c = '\r' ∧ back.head? = some '\n' ∨ Script.mark <+: back

namespace Script

theorem staysCommented_nil : Text.StaysCommented [] := by
  intro front c back h
  simp at h

theorem staysCommented_cons {c : Char} {v : Text} :
    Text.StaysCommented (c :: v) ↔
      (c = '\r' ∨ c = '\u2028' ∨ c = '\u2029' →
        c = '\r' ∧ v.head? = some '\n' ∨ mark <+: v) ∧ Text.StaysCommented v := by
  constructor
  · intro h
    refine ⟨h [] c v rfl, ?_⟩
    intro front d back hv
    exact h (c :: front) d back (by rw [hv]; rfl)
  · rintro ⟨hc, hv⟩ front d back h
    cases front with
    | nil =>
      obtain ⟨rfl, rfl⟩ := List.cons.inj h
      exact hc
    | cons e front => exact hv front d back (List.cons.inj h).2

instance decidableStaysCommented : (v : Text) → Decidable v.StaysCommented
  | [] => isTrue staysCommented_nil
  | _ :: v =>
    have := decidableStaysCommented v
    decidable_of_iff _ staysCommented_cons.symm

theorem staysCommented_cons_of_ne {c : Char} {v : Text}
    (h : c = '\n' ∨ isLineTerminator c = false) :
    Text.StaysCommented (c :: v) ↔ Text.StaysCommented v := by
  have hc : ¬ (c = '\r' ∨ c = '\u2028' ∨ c = '\u2029') := by
    rintro (rfl | rfl | rfl) <;> revert h <;> decide
  rw [staysCommented_cons]
  exact ⟨fun h => h.2, fun h => ⟨fun h' => absurd h' hc, h⟩⟩

theorem isLineTerminator_cases {c : Char} (h : isLineTerminator c = true) :
    c = '\n' ∨ c = '\r' ∨ c = '\u2028' ∨ c = '\u2029' := by
  simpa [isLineTerminator, or_assoc] using h

/-- The lines of a rendered comment behind its first one have marks if its other line ends do. -/
theorem tail_lines_commentBody (v : Text) :
    (∀ l ∈ (lines (commentBody v)).tail, mark <+: l) ↔ v.StaysCommented := by
  induction v using lines.induct with
  | case1 => exact ⟨fun _ => staysCommented_nil, fun _ => by simp [commentBody, lines]⟩
  | case2 t ih =>
    have hlines : lines (commentBody ('\r' :: '\n' :: t)) =
        [] :: lines (mark ++ commentBody t) := by
      rw [commentBody_cons (by decide), commentBody_feed, lines_crlf]
    have hstays : Text.StaysCommented ('\r' :: '\n' :: t) ↔ Text.StaysCommented t := by
      rw [staysCommented_cons, staysCommented_cons_of_ne (Or.inl rfl)]
      exact ⟨fun h => h.2, fun h => ⟨fun _ => Or.inl ⟨rfl, rfl⟩, h⟩⟩
    rw [hlines, hstays, ← ih]
    exact commented_mark_append _
  | case3 c t hcr hc ih =>
    by_cases hn : c = '\n'
    · subst hn
      rw [commentBody_feed, staysCommented_cons_of_ne (Or.inl rfl), ← ih]
      exact commented_mark_append _
    · have hforeign : c = '\r' ∨ c = '\u2028' ∨ c = '\u2029' :=
        (isLineTerminator_cases hc).resolve_left hn
      have hlf : ¬ (c = '\r' ∧ t.head? = some '\n') := by
        rintro ⟨rfl, ht⟩
        obtain ⟨t', rfl⟩ := List.head?_eq_some_iff.mp ht
        exact hcr t' rfl rfl
      have hlines : lines (commentBody (c :: t)) = [] :: lines (commentBody t) := by
        rw [← head?_commentBody] at hlf
        rw [commentBody_cons hn, lines_cons hlf, if_pos hc]
      have hstays : Text.StaysCommented (c :: t) ↔ mark <+: t ∧ Text.StaysCommented t := by
        rw [staysCommented_cons]
        constructor
        · rintro ⟨h, ht⟩
          exact ⟨(h hforeign).resolve_left hlf, ht⟩
        · rintro ⟨h, ht⟩
          exact ⟨fun _ => Or.inr h, ht⟩
      rw [hlines, hstays, ← ih, ← prefix_commentBody_iff (by decide)]
      exact commented_iff _
  | case4 c t _ hc ih =>
    have hc' : isLineTerminator c = false := by simpa using hc
    have hn : c ≠ '\n' := by
      rintro rfl
      exact hc rfl
    obtain ⟨others, ho⟩ := exists_lines (commentBody t)
    rw [commentBody_cons hn, lines_of_not_isLineTerminator hc',
      staysCommented_cons_of_ne (Or.inr hc'), ← ih, ho]
    rfl

/-- **A comment stays a comment.** Every line of its rendering starts with the mark of a line
comment if and only if behind every line end of the comment that is no line feed stands such a mark,
or a line feed behind a carriage return. So a comment whose lines end with line feeds, alone or
behind carriage returns, never becomes code. -/
theorem lines_lineComments (v : Text) :
    (∀ l ∈ lines (lineComments v), "// ".toList <+: l) ↔ v.StaysCommented := by
  have hmark := commented_mark_append (commentBody v)
  rw [lineComments_eq]
  exact hmark.trans (tail_lines_commentBody v)

/-- A carriage return in a comment starts a line of the script that is no comment. -/
theorem lines_lineComments_return :
    lines (lineComments "a\rb".toList) = ["// a".toList, "b".toList] ∧
      ¬ ∀ l ∈ lines (lineComments "a\rb".toList), "// ".toList <+: l := by
  decide

end Script

end Smalltalk
