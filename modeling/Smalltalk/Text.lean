/-! # Texts and byte offsets

A text is a list of characters, and a place in it is a count of bytes of its UTF-8 form. An offset
may fall inside a character or beyond the end; nothing is left to read there.

* `Text.dropBytes?`: the text from an offset on, for offsets on a character boundary.
* `Text.slice?`: the text between two boundaries.
* `Text.fromByte`: what is left to read at any offset, boundary or not.
* `Text.fromByte_add`: reading past a front part moves the offset by the bytes of that part. -/

namespace Smalltalk

/-- A text: its characters in order. -/
abbrev Text := List Char

namespace Text

/-- The number of bytes of the UTF-8 form. -/
def byteLength : Text → Nat
  | [] => 0
  | c :: cs => c.utf8Size + byteLength cs

/-- The text from byte offset `n` on, if `n` is a character boundary of the text. -/
def dropBytes? (t : Text) (n : Nat) : Option Text :=
  if n = 0 then some t
  else match t with
    | [] => none
    | c :: cs => if c.utf8Size ≤ n then dropBytes? cs (n - c.utf8Size) else none

/-- The first `n` bytes of the text, if `n` is a character boundary of the text. -/
def takeBytes? (t : Text) (n : Nat) : Option Text :=
  if n = 0 then some []
  else match t with
    | [] => none
    | c :: cs => if c.utf8Size ≤ n then (takeBytes? cs (n - c.utf8Size)).map (c :: ·) else none

/-- Offset `n` lies between two characters, or at either end. -/
def IsBoundary (t : Text) (n : Nat) : Prop := (t.dropBytes? n).isSome

instance (t : Text) (n : Nat) : Decidable (t.IsBoundary n) := by
  unfold IsBoundary; infer_instance

/-- The text between the boundaries `start` and `stop`. -/
def slice? (t : Text) (start stop : Nat) : Option Text :=
  if start ≤ stop then (t.dropBytes? start).bind (takeBytes? · (stop - start)) else none

/-- What is left to read at byte offset `n`: nothing inside a character or past the end. -/
def fromByte (t : Text) (n : Nat) : Text := (t.dropBytes? n).getD []

/-- The decimal numeral of a natural number. -/
def ofNat (n : Nat) : Text := Nat.toDigits 10 n

/-- `n` blanks. -/
def blanks (n : Nat) : Text := List.replicate n ' '

/-- The text before the first `c`, and the text after it if there is one. -/
def cut (c : Char) : Text → Text × Option Text
  | [] => ([], none)
  | d :: ds =>
    if d = c then ([], some ds)
    else
      let parts := cut c ds
      (d :: parts.1, parts.2)

/-- The parts of a text between the occurrences of `c`, at least one. -/
def splitAll (c : Char) : Text → List Text
  | [] => [[]]
  | d :: ds =>
    if d = c then [] :: splitAll c ds
    else match splitAll c ds with
      | [] => [[d]]
      | part :: parts => (d :: part) :: parts

/-! ### Offsets and parts -/

@[simp] theorem byteLength_nil : byteLength [] = 0 := rfl

@[simp] theorem byteLength_cons (c : Char) (cs : Text) :
    byteLength (c :: cs) = c.utf8Size + byteLength cs := rfl

@[simp] theorem byteLength_append (s t : Text) :
    byteLength (s ++ t) = byteLength s + byteLength t := by
  induction s with
  | nil => simp
  | cons c s ih => simp [ih, Nat.add_assoc]

/-- A property of all characters of a given text, by evaluation. -/
theorem forall_of_all {p : Char → Prop} [DecidablePred p] {t : Text}
    (h : t.all (decide <| p ·) = true) : ∀ c ∈ t, p c :=
  fun c hc => of_decide_eq_true (List.all_eq_true.mp h c hc)

theorem length_le_byteLength (t : Text) : t.length ≤ t.byteLength := by
  induction t with
  | nil => exact Nat.le_refl 0
  | cons c t ih =>
    have hc := Char.utf8Size_pos c
    rw [List.length_cons, byteLength_cons]
    omega

@[simp] theorem dropBytes?_zero (t : Text) : t.dropBytes? 0 = some t := by
  unfold dropBytes?; rfl

theorem dropBytes?_nil {n : Nat} (h : n ≠ 0) : dropBytes? [] n = none := by
  unfold dropBytes?; simp [h]

theorem dropBytes?_cons (c : Char) (cs : Text) {n : Nat} (h : n ≠ 0) :
    dropBytes? (c :: cs) n =
      if c.utf8Size ≤ n then dropBytes? cs (n - c.utf8Size) else none := by
  rw [dropBytes?, if_neg h]

/-- Dropping the bytes of a front part leaves the other part, wherever the offset goes on. -/
theorem dropBytes?_append (s t : Text) (n : Nat) :
    dropBytes? (s ++ t) (byteLength s + n) = dropBytes? t n := by
  induction s with
  | nil => simp
  | cons c s ih =>
    have hc := Char.utf8Size_pos c
    rw [List.cons_append, byteLength_cons, dropBytes?_cons c _ (by omega), if_pos (by omega), ← ih]
    congr 1; omega

/-- A boundary splits the text into a front part of that many bytes and the rest. -/
theorem dropBytes?_eq_some_iff {t r : Text} {n : Nat} :
    t.dropBytes? n = some r ↔ ∃ s, t = s ++ r ∧ byteLength s = n := by
  constructor
  · intro h
    induction t generalizing n with
    | nil =>
      by_cases hn : n = 0
      · subst hn; exact ⟨[], by simpa using h, rfl⟩
      · simp [dropBytes?_nil hn] at h
    | cons c cs ih =>
      by_cases hn : n = 0
      · subst hn; exact ⟨[], by simpa using h, rfl⟩
      · rw [dropBytes?_cons c cs hn] at h
        split at h
        · obtain ⟨s, hs, hb⟩ := ih h
          exact ⟨c :: s, by rw [hs]; rfl, by rw [byteLength_cons, hb]; omega⟩
        · simp at h
  · rintro ⟨s, rfl, rfl⟩
    simpa using dropBytes?_append s r 0

/-- **What is left after a front part.** If `l ++ r` is left at `n`, then `r` is left once the
offset has moved past the bytes of `l`, provided something was left at `n` at all. -/
theorem fromByte_add {t l r : Text} {n : Nat} (h : t.fromByte n = l ++ r) (hl : l ≠ []) :
    t.fromByte (n + byteLength l) = r := by
  unfold fromByte at h ⊢
  cases hd : t.dropBytes? n with
  | none => simp_all
  | some u =>
    obtain ⟨s, rfl, rfl⟩ := dropBytes?_eq_some_iff.mp hd
    simp only [hd, Option.getD_some] at h
    subst h
    rw [dropBytes?_append]
    simpa using congrArg (·.getD []) (dropBytes?_append l r 0)

/-- Dropping as many characters as the longest front run of a class drops that run. -/
theorem drop_length_takeWhile (p : Char → Bool) (t : Text) :
    t.drop (t.takeWhile p).length = t.dropWhile p := by
  induction t with
  | nil => rfl
  | cons c cs ih => cases h : p c <;> simp [h, ih]

/-! ### Cutting a text -/

theorem cut_eq_some {c : Char} {t before after : Text} (h : t.cut c = (before, some after)) :
    t = before ++ c :: after := by
  induction t generalizing before with
  | nil => simp [cut] at h
  | cons d ds ih =>
    unfold cut at h
    split at h
    · next hd =>
      obtain ⟨rfl, hds⟩ := Prod.mk.inj h
      rw [hd, Option.some.inj hds]
      rfl
    · dsimp only at h
      rcases hp : cut c ds with ⟨front, back⟩
      rw [hp] at h
      obtain ⟨rfl, rfl⟩ := Prod.mk.inj h
      rw [ih hp]
      rfl

theorem cut_eq_none {c : Char} {t before : Text} (h : t.cut c = (before, none)) : t = before := by
  induction t generalizing before with
  | nil => exact (Prod.mk.inj h).1
  | cons d ds ih =>
    unfold cut at h
    split at h
    · simp at h
    · dsimp only at h
      rcases hp : cut c ds with ⟨front, back⟩
      rw [hp] at h
      obtain ⟨rfl, rfl⟩ := Prod.mk.inj h
      rw [ih hp]

theorem cut_cons_of_ne {c d : Char} (h : d ≠ c) (t : Text) :
    cut c (d :: t) = (d :: (cut c t).1, (cut c t).2) := by
  rw [cut, if_neg h]

theorem cut_cons_self (c : Char) (t : Text) : cut c (c :: t) = ([], some t) := by
  rw [cut, if_pos rfl]

/-- A front part without the mark stays in front. -/
theorem cut_append {c : Char} {s : Text} (h : c ∉ s) (t : Text) :
    cut c (s ++ t) = (s ++ (cut c t).1, (cut c t).2) := by
  induction s with
  | nil => rfl
  | cons d s ih =>
    rw [List.mem_cons, not_or] at h
    rw [List.cons_append, cut_cons_of_ne (Ne.symm h.1), ih h.2]
    rfl

theorem cut_of_notMem {c : Char} {t : Text} (h : c ∉ t) : t.cut c = (t, none) := by
  simpa [cut] using cut_append h []

theorem notMem_cut (c : Char) (t : Text) : c ∉ (t.cut c).1 := by
  induction t with
  | nil => simp [cut]
  | cons d ds ih =>
    by_cases hd : d = c
    · simp [cut, hd]
    · rw [cut_cons_of_ne hd]
      simp [ih, Ne.symm hd]

theorem exists_splitAll (t : Text) (c : Char) :
    ∃ part parts, t.splitAll c = part :: parts := by
  cases t with
  | nil => exact ⟨[], [], rfl⟩
  | cons d t =>
    rw [splitAll]
    split
    · exact ⟨_, _, rfl⟩
    · split
      · exact ⟨_, _, rfl⟩
      · exact ⟨_, _, rfl⟩

/-- The parts of two texts with the mark between them. -/
theorem splitAll_append (c : Char) (s t : Text) :
    (s ++ c :: t).splitAll c = s.splitAll c ++ t.splitAll c := by
  induction s with
  | nil => simp [splitAll]
  | cons d s ih =>
    obtain ⟨part, parts, hs⟩ := exists_splitAll s c
    by_cases hd : d = c
    · simp [splitAll, hd, ih]
    · simp [splitAll, hd, ih, hs]

theorem notMem_of_mem_splitAll {c : Char} {t part : Text} (h : part ∈ t.splitAll c) : c ∉ part := by
  induction t generalizing part with
  | nil => simp_all [splitAll]
  | cons d t ih =>
    obtain ⟨first, parts, ht⟩ := exists_splitAll t c
    rw [ht] at ih
    by_cases hd : d = c
    · simp only [splitAll, hd, if_true, ht, List.mem_cons] at h
      rcases h with rfl | h
      · simp
      · exact ih (List.mem_cons.mpr h)
    · simp only [splitAll, hd, if_false, ht, List.mem_cons] at h
      rcases h with rfl | h
      · have hfirst := ih List.mem_cons_self
        simp [hfirst, Ne.symm hd]
      · exact ih (List.mem_cons_of_mem _ h)

end Text

end Smalltalk
