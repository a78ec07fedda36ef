import Mathlib.Data.List.Infix
import Mathlib.Data.List.TakeWhile
import Smalltalk.Proofs.LiteralFaults
import Smalltalk.Proofs.Tiling

/-! # The numeric literal at the front of a text

A literal is captured a character at a time, and four marks say what has been seen of it so far.
What was captured decides these marks, so the capture can be described without them: it is the
longest front part of the text that can be a numeric literal, and it fails exactly if this part is
followed by a second `r` or `e`.

* `Numeral.Admissible`: what can be a numeric literal, with the text that follows it.
* `Numeral.admissible_concat`: such a literal grows by the characters that `Numeral.MayFollow` it.
* `Reading.Marks.Describes.stepped`: hence all that the next character can do.
* `nextToken_number`: hence what the lexer does where a number starts. -/

namespace Smalltalk

namespace Numeral

/-! ### What can be a literal -/

/-- **What can be a numeric literal** if the text `rest` follows it: letters, digits, points and
minus signs, with one `r`, one `e` and one point at most, one minus sign at most on each side of
`e`, and a letter or digit behind the point. -/
structure Admissible (literal rest : Text) : Prop where
  characters : ∀ c ∈ literal, c.isAlphanum ∨ c = '.' ∨ c = '-'
  radix : literal.count 'r' ≤ 1
  exponent : literal.count 'e' ≤ 1
  point : literal.count '.' ≤ 1
  minus_before : (literal.takeWhile (· ≠ 'e')).count '-' ≤ 1
  minus_behind : (literal.dropWhile (· ≠ 'e')).count '-' ≤ 1
  point_followed : ∀ front back, literal = front ++ '.' :: back →
    (back ++ rest).head?.any Char.isAlphanum

/-- The part of a literal from `e` on, or all of it if there is none. -/
def lastPart (literal : Text) : Text :=
  if 'e' ∈ literal then literal.dropWhile (· ≠ 'e') else literal

/-- The literal goes on with the character `c`, if `next` follows that. -/
structure MayFollow (literal : Text) (c : Char) (next : Option Char) : Prop where
  character : c.isAlphanum ∨ c = '.' ∨ c = '-'
  radix : c = 'r' → 'r' ∉ literal
  exponent : c = 'e' → 'e' ∉ literal
  point : c = '.' → '.' ∉ literal ∧ next.any Char.isAlphanum
  minus : c = '-' → '-' ∉ lastPart literal

variable {literal rest front back : Text} {c x : Char}

theorem admissible_iff : Admissible literal rest ↔
    literal.all (fun c => c.isAlphanum || c = '.' || c = '-') ∧
    (literal.count 'r' ≤ 1 ∧ literal.count 'e' ≤ 1 ∧ literal.count '.' ≤ 1) ∧
    (literal.takeWhile (· ≠ 'e')).count '-' ≤ 1 ∧ (literal.dropWhile (· ≠ 'e')).count '-' ≤ 1 ∧
    ∀ back ∈ literal.tails, back.head? = some '.' →
      (back.tail ++ rest).head?.any Char.isAlphanum := by
  have hall : literal.all (fun c => c.isAlphanum || c = '.' || c = '-') ↔
      ∀ c ∈ literal, c.isAlphanum ∨ c = '.' ∨ c = '-' := by simp [or_assoc]
  rw [hall]
  constructor
  · rintro ⟨hchars, hr, he, hp, hbefore, hbehind, hfollowed⟩
    refine ⟨hchars, ⟨hr, he, hp⟩, hbefore, hbehind, fun part hpart hhead => ?_⟩
    obtain ⟨front, hfront⟩ := (List.mem_tails part literal).mp hpart
    obtain ⟨back, rfl⟩ := List.head?_eq_some_iff.mp hhead
    exact hfollowed front back hfront.symm
  · rintro ⟨hchars, ⟨hr, he, hp⟩, hbefore, hbehind, hfollowed⟩
    refine ⟨hchars, hr, he, hp, hbefore, hbehind, fun front back hsplit => ?_⟩
    have hpart : '.' :: back ∈ literal.tails :=
      (List.mem_tails ..).mpr ⟨front, hsplit.symm⟩
    exact hfollowed _ hpart rfl

instance (literal rest : Text) : Decidable (Admissible literal rest) :=
  decidable_of_iff _ admissible_iff.symm

theorem admissible_nil (rest : Text) : Admissible [] rest := by
  refine ⟨nofun, ?_, ?_, ?_, ?_, ?_, ?_⟩
  all_goals simp

theorem count_concat_le_one :
    (literal ++ [c]).count x ≤ 1 ↔ literal.count x ≤ 1 ∧ (c = x → x ∉ literal) := by
  rw [List.count_append, ← List.count_eq_zero]
  by_cases hx : c = x
  · have hone : [x].count x = 1 := by simp
    simp only [hx, hone, forall_const]
    omega
  · simp [hx]

theorem takeWhile_concat_of_mem (h : 'e' ∈ literal) :
    (literal ++ [c]).takeWhile (· ≠ 'e') = literal.takeWhile (· ≠ 'e') := by
  induction literal with
  | nil => simp at h
  | cons d literal ih =>
    by_cases hd : d = 'e'
    · simp [hd]
    · have := ih ((List.mem_cons.mp h).resolve_left (Ne.symm hd))
      simp_all

theorem dropWhile_concat_of_mem (h : 'e' ∈ literal) :
    (literal ++ [c]).dropWhile (· ≠ 'e') = literal.dropWhile (· ≠ 'e') ++ [c] := by
  induction literal with
  | nil => simp at h
  | cons d literal ih =>
    by_cases hd : d = 'e'
    · simp [hd]
    · have := ih ((List.mem_cons.mp h).resolve_left (Ne.symm hd))
      simp_all

theorem forall_ne_of_notMem (h : 'e' ∉ literal) : ∀ d ∈ literal, decide (d ≠ 'e') = true := by
  intro d hd
  have hne : d ≠ 'e' := by
    rintro rfl
    exact h hd
  exact decide_eq_true hne

/-- One minus sign more stands in the last part. -/
theorem minus_concat :
    ((literal ++ [c]).takeWhile (· ≠ 'e')).count '-' ≤ 1 ∧
      ((literal ++ [c]).dropWhile (· ≠ 'e')).count '-' ≤ 1 ↔
    ((literal.takeWhile (· ≠ 'e')).count '-' ≤ 1 ∧ (literal.dropWhile (· ≠ 'e')).count '-' ≤ 1) ∧
      (c = '-' → '-' ∉ lastPart literal) := by
  by_cases he : 'e' ∈ literal
  · rw [takeWhile_concat_of_mem he, dropWhile_concat_of_mem he, count_concat_le_one, lastPart,
      if_pos he, and_assoc]
  · have hall := forall_ne_of_notMem he
    have htake : literal.takeWhile (· ≠ 'e') = literal := List.takeWhile_eq_self_iff.mpr hall
    have hdrop : literal.dropWhile (· ≠ 'e') = [] := List.dropWhile_eq_nil_iff.mpr hall
    rw [List.takeWhile_append_of_pos hall, List.dropWhile_append_of_pos hall, htake, hdrop,
      lastPart, if_neg he]
    by_cases hc : c = 'e'
    · simp [hc]
    · rw [List.takeWhile_cons_of_pos (by simpa using hc), List.dropWhile_cons_of_pos
        (by simpa using hc), List.takeWhile_nil, List.dropWhile_nil, count_concat_le_one]
      simp

theorem point_followed_concat :
    (∀ front back, literal ++ [c] = front ++ '.' :: back →
      (back ++ rest).head?.any Char.isAlphanum) ↔
    (∀ front back, literal = front ++ '.' :: back →
      (back ++ c :: rest).head?.any Char.isAlphanum) ∧
      (c = '.' → rest.head?.any Char.isAlphanum) := by
  constructor
  · refine fun h => ⟨?_, ?_⟩
    · rintro front back rfl
      simpa using h front (back ++ [c]) (by simp)
    · rintro rfl
      exact h literal [] rfl
  · rintro ⟨hinner, hlast⟩ front back heq
    rcases List.eq_nil_or_concat back with rfl | ⟨inner, d, rfl⟩
    · obtain ⟨-, hc⟩ := List.append_inj' heq rfl
      exact hlast (List.cons.inj hc).1
    · rw [List.concat_eq_append, ← List.cons_append, ← List.append_assoc] at heq
      obtain ⟨hl, hc⟩ := List.append_inj' heq rfl
      obtain rfl := (List.cons.inj hc).1
      simpa using hinner front inner hl

/-- **How a literal grows.** -/
theorem admissible_concat :
    Admissible (literal ++ [c]) rest ↔
      Admissible literal (c :: rest) ∧ MayFollow literal c rest.head? := by
  constructor
  · rintro ⟨hchars, hr, he, hp, hbefore, hbehind, hfollowed⟩
    obtain ⟨hr, hr'⟩ := count_concat_le_one.mp hr
    obtain ⟨he, he'⟩ := count_concat_le_one.mp he
    obtain ⟨hp, hp'⟩ := count_concat_le_one.mp hp
    obtain ⟨⟨hbefore, hbehind⟩, hminus⟩ := minus_concat.mp ⟨hbefore, hbehind⟩
    obtain ⟨hfollowed, hnext⟩ := point_followed_concat.mp hfollowed
    have hc : c ∈ literal ++ [c] := List.mem_append_right _ List.mem_cons_self
    refine ⟨⟨?_, hr, he, hp, hbefore, hbehind, hfollowed⟩, hchars c hc, hr', he', ?_, hminus⟩
    · exact fun d hd => hchars d (List.mem_append_left _ hd)
    · exact fun hdot => ⟨hp' hdot, hnext hdot⟩
  · rintro ⟨⟨hchars, hr, he, hp, hbefore, hbehind, hfollowed⟩, hc, hr', he', hp', hminus⟩
    obtain ⟨hbefore, hbehind⟩ := minus_concat.mpr ⟨⟨hbefore, hbehind⟩, hminus⟩
    refine ⟨?_, count_concat_le_one.mpr ⟨hr, hr'⟩, count_concat_le_one.mpr ⟨he, he'⟩,
      count_concat_le_one.mpr ⟨hp, fun hdot => (hp' hdot).1⟩, hbefore, hbehind,
      point_followed_concat.mpr ⟨hfollowed, fun hdot => (hp' hdot).2⟩⟩
    intro d hd
    rcases List.mem_append.mp hd with hd | hd
    · exact hchars d hd
    · rw [List.mem_singleton.mp hd]
      exact hc

/-- A front part of a literal can be one too. -/
theorem Admissible.of_append (h : Admissible (literal ++ back) rest) :
    Admissible literal (back ++ rest) := by
  induction back generalizing literal with
  | nil => simpa using h
  | cons c back ih =>
    rw [List.append_cons] at h
    exact (admissible_concat.mp (ih h)).1

end Numeral

/-! ### The capture -/

namespace Reading

open Numeral

/-- The marks of which a literal has one, each with the fault that a second one is. -/
inductive Mark : ScanFault → Char → Prop
  | radix : Mark .multipleRadix 'r'
  | exponent : Mark .multipleExponent 'e'

theorem Mark.not_mayFollow {fault : ScanFault} {mark : Char} {literal : Text} {next : Option Char}
    (hm : Mark fault mark) (h : mark ∈ literal) : ¬ MayFollow literal mark next := by
  intro hf
  cases hm with
  | radix => exact hf.radix rfl h
  | exponent => exact hf.exponent rfl h

/-- What the marks say of the literal so far. -/
structure Marks.Describes (m : Marks) (literal : Text) : Prop where
  radix : m.radix = true ↔ 'r' ∈ literal
  exponent : m.exponent = true ↔ 'e' ∈ literal
  point : m.point = true ↔ '.' ∈ literal
  minus : m.minus = true ↔ '-' ∈ lastPart literal

/-- **All that the next character can do to a literal:** it is taken, the literal ends before it, or
it is a mark that the literal has already. -/
inductive Stepped (literal : Text) (c : Char) (next : Option Char) : Step → Prop
  | take {m : Marks} (hf : MayFollow literal c next) (hd : m.Describes (literal ++ [c])) :
    Stepped literal c next (.take m)
  | stop (hf : ¬ MayFollow literal c next) (hm : ∀ fault, ¬ Mark fault c) :
    Stepped literal c next .stop
  | clash {fault : ScanFault} (hm : Mark fault c) (hc : c ∈ literal) :
    Stepped literal c next (.clash fault)

theorem describes_nil : Marks.Describes {} [] := by
  refine ⟨?_, ?_, ?_, ?_⟩ <;> simp [lastPart]

theorem lastPart_concat {literal : Text} {c : Char} (hc : c ≠ 'e') :
    lastPart (literal ++ [c]) = lastPart literal ++ [c] := by
  unfold lastPart
  by_cases he : 'e' ∈ literal
  · rw [if_pos he, if_pos (List.mem_append_left _ he), dropWhile_concat_of_mem he]
  · have he' : 'e' ∉ literal ++ [c] := by simp [he, Ne.symm hc]
    rw [if_neg he, if_neg he']

theorem lastPart_exponent {literal : Text} (h : 'e' ∉ literal) :
    lastPart (literal ++ ['e']) = ['e'] := by
  have he : 'e' ∈ literal ++ ['e'] := List.mem_append_right _ List.mem_cons_self
  rw [lastPart, if_pos he, List.dropWhile_append_of_pos (forall_ne_of_notMem h)]
  rfl

section Step

variable {m : Marks} {literal : Text} (h : m.Describes literal)
include h

theorem Marks.Describes.concat {c : Char} (hc : c ≠ 'e') :
    Marks.Describes ⟨m.radix || 'r' = c, m.exponent, m.point || '.' = c, m.minus || '-' = c⟩
      (literal ++ [c]) := by
  obtain ⟨hr, he, hp, hm⟩ := h
  refine ⟨?_, ?_, ?_, ?_⟩
  · simp [hr]
  · simp [he, Ne.symm hc]
  · simp [hp]
  · simp [hm, lastPart_concat hc]

theorem Marks.Describes.concat_exponent (hno : 'e' ∉ literal) :
    Marks.Describes { m with exponent := true, minus := false } (literal ++ ['e']) := by
  obtain ⟨hr, he, hp, hm⟩ := h
  refine ⟨?_, ?_, ?_, ?_⟩
  · simp [hr]
  · simp
  · simp [hp]
  · simp [lastPart_exponent hno]

theorem Marks.Describes.stepped_radix (next : Option Char) : Stepped literal 'r' next
    (if m.radix then .clash .multipleRadix else .take { m with radix := true }) := by
  cases hm : m.radix with
  | true => exact .clash .radix (h.radix.mp hm)
  | false =>
    have hno : 'r' ∉ literal := by simp [← h.radix, hm]
    refine .take ?_ (by simpa using h.concat (c := 'r') (by decide))
    exact ⟨Or.inl (by decide), fun _ => hno, nofun, nofun, nofun⟩

theorem Marks.Describes.stepped_exponent (next : Option Char) : Stepped literal 'e' next
    (if m.exponent then .clash .multipleExponent
      else .take { m with exponent := true, minus := false }) := by
  cases hm : m.exponent with
  | true => exact .clash .exponent (h.exponent.mp hm)
  | false =>
    have hno : 'e' ∉ literal := by simp [← h.exponent, hm]
    refine .take ?_ (h.concat_exponent hno)
    exact ⟨Or.inl (by decide), nofun, fun _ => hno, nofun, nofun⟩

theorem Marks.Describes.stepped_point {next : Option Char} (hnext : next.any Char.isAlphanum) :
    Stepped literal '.' next (if m.point then .stop else .take { m with point := true }) := by
  cases hm : m.point with
  | true => exact .stop (fun hf => (hf.point rfl).1 (h.point.mp hm)) nofun
  | false =>
    have hno : '.' ∉ literal := by simp [← h.point, hm]
    refine .take ?_ (by simpa using h.concat (c := '.') (by decide))
    exact ⟨Or.inr (Or.inl rfl), nofun, nofun, fun _ => ⟨hno, hnext⟩, nofun⟩

theorem Marks.Describes.stepped_minus (next : Option Char) :
    Stepped literal '-' next (if m.minus then .stop else .take { m with minus := true }) := by
  cases hm : m.minus with
  | true => exact .stop (fun hf => hf.minus rfl (h.minus.mp hm)) nofun
  | false =>
    have hno : '-' ∉ lastPart literal := by simp [← h.minus, hm]
    refine .take ?_ (by simpa using h.concat (c := '-') (by decide))
    exact ⟨Or.inr (Or.inr rfl), nofun, nofun, nofun, fun _ => hno⟩

/-- **The next character does nothing else.** -/
theorem Marks.Describes.stepped (c : Char) (next : Option Char) :
    Stepped literal c next (m.step c next) := by
  unfold Marks.step
  by_cases hr : c = 'r'
  · rw [if_pos hr, hr]
    exact h.stepped_radix next
  by_cases he : c = 'e'
  · rw [if_neg hr, if_pos he, he]
    exact h.stepped_exponent next
  by_cases hp : c = '.' ∧ next.any Char.isAlphanum
  · rw [if_neg hr, if_neg he, if_pos hp, hp.1]
    exact h.stepped_point hp.2
  by_cases hs : c = '-'
  · rw [if_neg hr, if_neg he, if_neg hp, if_pos hs, hs]
    exact h.stepped_minus next
  rw [if_neg hr, if_neg he, if_neg hp, if_neg hs]
  by_cases ha : c.isAlphanum
  · have hdot : c ≠ '.' := by
      rintro rfl
      exact absurd ha (by decide)
    rw [if_pos ha]
    refine .take ?_ (by simpa [Ne.symm hr, Ne.symm hdot, Ne.symm hs] using h.concat he)
    exact ⟨Or.inl ha, fun h => absurd h hr, fun h => absurd h he, fun h => absurd h hdot,
      fun h => absurd h hs⟩
  · rw [if_neg ha]
    refine .stop (fun hf => ?_) ?_
    · rcases hf.character with hc | rfl | hc
      · exact ha hc
      · exact hp ⟨rfl, (hf.point rfl).2⟩
      · exact hs hc
    · rintro fault (_ | _)
      · exact hr rfl
      · exact he rfl

end Step

/-- Why the capture goes no further than `literal` where `rest` is left. -/
inductive Halted (literal : Text) : Text → Option ScanFault → Prop
  | finished : Halted literal [] none
  | stopped {c : Char} {rest : Text} (hf : ¬ MayFollow literal c rest.head?)
    (hm : ∀ fault, ¬ Mark fault c) : Halted literal (c :: rest) none
  | clashed {fault : ScanFault} {c : Char} {rest : Text} (hm : Mark fault c) (hc : c ∈ literal) :
    Halted literal (c :: rest) (some fault)

/-- **What is captured can be a literal,** and a longer part of the text can not. -/
theorem halted_capture {m : Marks} {front t : Text} (h : m.Describes front)
    (ha : Admissible front t) : ∃ rest, t = (capture m t).1 ++ rest ∧
      Admissible (front ++ (capture m t).1) rest ∧
      Halted (front ++ (capture m t).1) rest (capture m t).2 := by
  induction t generalizing m front with
  | nil => exact ⟨[], rfl, by simpa [capture] using ha, .finished⟩
  | cons c cs ih =>
    have hstep := h.stepped c cs.head?
    unfold capture
    generalize m.step c cs.head? = step at hstep
    cases hstep with
    | @take m' hf hd =>
      obtain ⟨rest, hcs, ha', hh⟩ := ih hd (admissible_concat.mpr ⟨ha, hf⟩)
      rw [← List.append_cons] at ha' hh
      exact ⟨rest, congrArg (c :: ·) hcs, ha', hh⟩
    | stop hf hm => exact ⟨c :: cs, rfl, by simpa using ha, by simpa using .stopped hf hm⟩
    | clash hm hc => exact ⟨c :: cs, rfl, by simpa using ha, by simpa using .clashed hm hc⟩

section Halted

variable {literal rest : Text} {result : Option ScanFault} (h : Halted literal rest result)
include h

theorem Halted.not_mayFollow {c : Char} {cs : Text} (hrest : rest = c :: cs) :
    ¬ MayFollow literal c cs.head? := by
  intro hf
  subst hrest
  cases h with
  | stopped hno => exact hno hf
  | clashed hm hc => exact hm.not_mayFollow hc hf

/-- A fault says that a mark of the literal follows it. -/
theorem Halted.eq_some_iff {fault : ScanFault} {mark : Char} (hm : Mark fault mark) :
    result = some fault ↔ rest.head? = some mark ∧ mark ∈ literal := by
  cases h with
  | finished => simp
  | @stopped c rest hf hno =>
    refine ⟨nofun, fun hboth => ?_⟩
    obtain rfl : c = mark := Option.some.inj hboth.1
    exact absurd hm (hno fault)
  | @clashed fault' c rest hm' hc =>
    constructor
    · intro heq
      obtain rfl := Option.some.inj heq
      obtain rfl : c = mark := by cases hm <;> cases hm' <;> rfl
      exact ⟨rfl, hc⟩
    · rintro ⟨hhead, -⟩
      obtain rfl : c = mark := Option.some.inj hhead
      cases hm <;> cases hm' <;> rfl

/-- **What is captured is the longest part that can be a literal.** -/
theorem Halted.isPrefix {w r : Text} (heq : w ++ r = literal ++ rest) (ha : Admissible w r) :
    w <+: literal := by
  have hw : w <+: literal ++ rest := ⟨r, heq⟩
  rcases List.prefix_or_prefix_of_prefix hw (List.prefix_append ..) with hle | ⟨back, rfl⟩
  · exact hle
  rcases back with _ | ⟨c, back⟩
  · simp
  · rw [List.append_assoc] at heq
    rw [List.append_cons] at ha
    have hrest := (List.append_cancel_left heq).symm
    exact absurd (admissible_concat.mp ha.of_append).2 (h.not_mayFollow hrest)

end Halted

/-- The capture meets a second mark exactly behind a literal that has one already. -/
theorem capture_eq_some_iff {t literal : Text} {fault : ScanFault} {mark : Char}
    (hm : Mark fault mark) : capture {} t = (literal, some fault) ↔
      ∃ rest, t = literal ++ mark :: rest ∧ Admissible literal (mark :: rest) ∧
        mark ∈ literal := by
  obtain ⟨rest, ht, ha, hh⟩ := halted_capture describes_nil (admissible_nil t)
  rcases hc : capture {} t with ⟨captured, result⟩
  simp only [hc, List.nil_append] at ht ha hh
  constructor
  · rintro ⟨⟩
    obtain ⟨hhead, hmem⟩ := (hh.eq_some_iff hm).mp rfl
    obtain ⟨rest, rfl⟩ := List.head?_eq_some_iff.mp hhead
    exact ⟨rest, ht, ha, hmem⟩
  · rintro ⟨rest', ht', ha', hmem⟩
    have heq : literal ++ mark :: rest' = captured ++ rest := ht'.symm.trans ht
    obtain ⟨back, rfl⟩ := hh.isPrefix heq ha'
    rw [List.append_assoc] at heq
    have hback := List.append_cancel_left heq
    rcases back with _ | ⟨d, back⟩
    · rw [List.nil_append] at hback
      have hhead : rest.head? = some mark := by rw [← hback]; rfl
      rw [List.append_nil] at hh ⊢
      rw [(hh.eq_some_iff hm).mpr ⟨hhead, hmem⟩]
    · -- a literal that goes on with the mark has it twice
      obtain rfl : mark = d := (List.cons.inj hback).1
      rw [List.append_cons] at ha
      exact absurd (admissible_concat.mp ha.of_append).2 (hm.not_mayFollow hmem)

/-! ### Reading a number -/

theorem not_mark_of_evaluate {literal : Text} {e : ScanError} {mark : Char}
    (h : Numeral.evaluate literal = .error e) : ¬ Mark e.fault mark := by
  intro hm
  cases Numeral.literalFault_of_evaluate h <;> cases hm

/-- **A number is refused for a second mark** exactly where that follows a literal with one. -/
theorem number_error_iff {t : Text} {fault : ScanFault} {mark : Char} {n : Nat}
    (hm : Mark fault mark) : (number t).outcome = .error ⟨fault, n⟩ ↔
      ∃ literal rest, t = literal ++ mark :: rest ∧ n = literal.byteLength ∧
        Admissible literal (mark :: rest) ∧ mark ∈ literal := by
  have hcapture : (number t).outcome = .error ⟨fault, n⟩ ↔
      ∃ literal, capture {} t = (literal, some fault) ∧ n = literal.byteLength := by
    rcases number_cases t with ⟨literal, fault', hc, hn⟩ | ⟨literal, v, hc, -, hn⟩ |
      ⟨literal, e, hc, he, hn⟩ <;> rw [hc, hn]
    · constructor
      · rintro ⟨⟩
        exact ⟨literal, rfl, rfl⟩
      · rintro ⟨_, ⟨⟩, rfl⟩
        rfl
    · simp [token]
    · have hne : e.fault ≠ fault := fun heq => not_mark_of_evaluate he (heq ▸ hm)
      simp only [Except.error.injEq, Prod.mk.injEq, reduceCtorEq, and_false, false_and,
        exists_false, iff_false]
      rintro rfl
      exact hne rfl
  rw [hcapture]
  simp only [capture_eq_some_iff hm]
  constructor
  · rintro ⟨literal, ⟨rest, ht, ha, hmem⟩, hn⟩
    exact ⟨literal, rest, ht, hn, ha, hmem⟩
  · rintro ⟨literal, rest, ht, hn, ha, hmem⟩
    exact ⟨literal, ⟨rest, ht, ha, hmem⟩, hn⟩

/-- Without a second mark the longest literal is evaluated. -/
theorem number_of_capture {t literal : Text} (h : capture {} t = (literal, none)) :
    number t = ⟨(Numeral.evaluate literal).map fun v => ⟨.number, v.toText⟩, literal⟩ := by
  unfold number
  rw [h]
  dsimp only
  rcases Numeral.evaluate literal with e | v <;> rfl

theorem isAlpha_of_isDigit {c : Char} (h : c.isDigit) : c.isAlpha = false := by
  rw [Bool.eq_false_iff]
  intro ha
  change (decide (c.val ≥ 'A'.val ∧ c.val ≤ 'Z'.val) ||
    (decide (c.val ≥ 'a'.val) && decide (c.val ≤ 'z'.val))) = true at ha
  have hdigit : 48 ≤ c.toNat ∧ c.toNat ≤ 57 := by
    simpa [Char.isDigit, UInt32.le_iff_toNat_le] using h
  have hletter : (65 ≤ c.toNat ∧ c.toNat ≤ 90) ∨ (97 ≤ c.toNat ∧ c.toNat ≤ 122) := by
    simpa [UInt32.le_iff_toNat_le] using ha
  omega

/-- A number starts with a character that is no blank. -/
theorem exists_cons_of_startsInteger {t : Text} (h : StartsInteger t) :
    ∃ c u, t = c :: u ∧ c.isWhitespace = false := by
  obtain ⟨d, r, hd, rfl | rfl⟩ := h
  · exact ⟨d, r, rfl, isWhitespace_of_isAlphanum (by simp [Char.isAlphanum, hd])⟩
  · exact ⟨'-', d :: r, rfl, rfl⟩

theorem ofText_of_startsInteger {c : Char} {t : Text} (h : StartsInteger (c :: t)) :
    ofText c t = number (c :: t) := by
  obtain ⟨_, _, hcons, hw⟩ := exists_cons_of_startsInteger h
  rw [← (List.cons.inj hcons).1] at hw
  obtain ⟨d, r, hd, heq | heq⟩ := h
  · obtain ⟨rfl, rfl⟩ := List.cons.inj heq
    unfold ofText
    simp only [hw, isAlpha_of_isDigit hd, hd, Bool.false_eq_true, if_false, if_true]
  · obtain ⟨rfl, rfl⟩ := List.cons.inj heq
    change minus (d :: r) = _
    rw [minus, if_pos (by simpa using hd)]

end Reading

/-! ### The lexer where a number starts -/

namespace Cursor

variable {c : Cursor} (h : c.OnBoundary)
include h

theorem OnBoundary.slice?_eq_some_iff {stop : Nat} {w : Text} :
    c.source.slice? c.position stop = some w ↔
      ∃ back, c.rest = w ++ back ∧ stop = c.position + w.byteLength := by
  unfold Text.slice?
  rw [h, Option.bind_some]
  constructor
  · intro hs
    split at hs
    · have hlen := Text.byteLength_of_takeBytes? hs
      obtain ⟨back, hback⟩ := Text.takeBytes?_isPrefix hs
      exact ⟨back, hback.symm, by omega⟩
    · cases hs
  · rintro ⟨back, hback, rfl⟩
    rw [if_pos (Nat.le_add_right ..), Nat.add_sub_cancel_left, hback]
    exact Text.takeBytes?_append w back

theorem OnBoundary.fromByte_add {w back : Text} (hrest : c.rest = w ++ back) :
    c.source.fromByte (c.position + w.byteLength) = back := by
  obtain ⟨front, hs, hp⟩ := onBoundary_iff.mp h
  have hdrop : c.source.dropBytes? (c.position + w.byteLength) = some back := by
    rw [Text.dropBytes?_eq_some_iff]
    exact ⟨front ++ w, by rw [hs, hrest, List.append_assoc], by rw [Text.byteLength_append, hp]⟩
  rw [Text.fromByte, hdrop, Option.getD_some]

end Cursor

namespace Lexer

open Numeral Reading

variable {l : Lexer} (h : StartsInteger l.cursor.rest)
include h

theorem tokenCursor_of_startsInteger : l.tokenCursor = l.cursor := by
  unfold tokenCursor
  split
  · rfl
  · obtain ⟨c, t, hrest, hw⟩ := exists_cons_of_startsInteger h
    have htake : l.cursor.rest.takeWhile Char.isWhitespace = [] := by
      rw [hrest, List.takeWhile_cons_of_neg (by simp [hw])]
    rw [Cursor.advanceWhile, htake]
    rfl

/-- **Where a number starts,** the lexer reads it. -/
theorem nextToken_of_startsInteger :
    l.nextToken = (match (number l.cursor.rest).outcome with
      | .ok token => .ok (some token)
      | .error e => .error (e.shift l.position), l.moved (number l.cursor.rest).lexeme.length) := by
  have hcursor := tokenCursor_of_startsInteger h
  obtain ⟨c, t, hrest, -⟩ := exists_cons_of_startsInteger h
  have hread := ofText_of_startsInteger (hrest ▸ h)
  unfold nextToken moved
  simp only [hcursor, hrest, hread]
  rfl

theorem onBoundary_of_startsInteger : l.cursor.OnBoundary := by
  obtain ⟨c, t, hrest, -⟩ := exists_cons_of_startsInteger h
  refine Cursor.onBoundary_of_rest_ne_nil ?_
  rw [hrest]
  exact List.cons_ne_nil c t

theorem nextToken_error_iff {fault : ScanFault} {mark : Char} {offset : Nat}
    (hm : Mark fault mark) : l.nextToken.1 = .error ⟨fault, offset⟩ ↔
      ∃ literal rest, l.cursor.rest = literal ++ mark :: rest ∧
        offset = l.position + literal.byteLength ∧ Admissible literal (mark :: rest) ∧
        mark ∈ literal := by
  have hshift : l.nextToken.1 = .error ⟨fault, offset⟩ ↔
      ∃ n, (number l.cursor.rest).outcome = .error ⟨fault, n⟩ ∧ offset = l.position + n := by
    rw [nextToken_of_startsInteger h]
    rcases (number l.cursor.rest).outcome with ⟨fault', n⟩ | token
    · simp only [ScanError.shift, Except.error.injEq, ScanError.mk.injEq]
      grind
    · simp
  rw [hshift]
  simp only [number_error_iff hm]
  grind

theorem nextToken_of_capture {literal : Text} (hc : capture {} l.cursor.rest = (literal, none)) :
    (l.nextToken.1 = match evaluate literal with
      | .ok value => .ok (some ⟨.number, value.toText⟩)
      | .error e => .error (e.shift l.position)) ∧
    l.nextToken.2.position = l.position + literal.byteLength := by
  rw [nextToken_of_startsInteger h, number_of_capture hc]
  refine ⟨?_, ?_⟩
  · rcases evaluate literal with e | value <;> rfl
  · change (l.tokenCursor.advanceBy literal.length).position = _
    have hpre : literal <+: l.cursor.rest := by simpa [hc] using capture_isPrefix {} l.cursor.rest
    rw [tokenCursor_of_startsInteger h, Cursor.position_advanceBy,
      ← List.prefix_iff_eq_take.mp hpre]
    rfl

end Lexer

open Numeral Reading

/-- **A number is captured by longest match.** The lexer refuses it for a second `r` or `e` exactly
where that follows a literal that has one; else it captures a literal that can not go on with the
next character, the longest there is, and evaluates that. -/
theorem nextToken_number {l : Lexer} (h : StartsInteger l.cursor.rest) :
    l.nextToken.2.tokenStart = l.position ∧
    (∀ fault mark, Mark fault mark → ∀ offset, l.nextToken.1 = .error ⟨fault, offset⟩ ↔
      ∃ literal, l.cursor.source.slice? l.position offset = some literal ∧
        Admissible literal (l.cursor.source.fromByte offset) ∧ mark ∈ literal ∧
        (l.cursor.source.fromByte offset).head? = some mark) ∧
    ((∀ fault mark, Mark fault mark → ∀ offset, l.nextToken.1 ≠ .error ⟨fault, offset⟩) →
      ∃ literal, l.cursor.source.slice? l.position l.nextToken.2.position = some literal ∧
        Admissible literal (l.cursor.source.fromByte l.nextToken.2.position) ∧
        (∀ c rest, l.cursor.source.fromByte l.nextToken.2.position = c :: rest →
          ¬ Admissible (literal ++ [c]) rest) ∧
        (∀ other rest, l.cursor.rest = other ++ rest → Admissible other rest →
          other <+: literal) ∧
        l.nextToken.1 = match evaluate literal with
          | .ok value => .ok (some ⟨.number, value.toText⟩)
          | .error e => .error (e.shift l.position)) := by
  have hb := Lexer.onBoundary_of_startsInteger h
  refine ⟨?_, fun fault mark hm offset => ?_, fun hno => ?_⟩
  · rw [Lexer.nextToken_of_startsInteger h]
    exact congrArg Cursor.position (Lexer.tokenCursor_of_startsInteger h)
  · rw [Lexer.nextToken_error_iff h hm]
    constructor
    · rintro ⟨literal, rest, hrest, rfl, ha, hmem⟩
      have hfrom := hb.fromByte_add hrest
      refine ⟨literal, hb.slice?_eq_some_iff.mpr ⟨_, hrest, rfl⟩, ?_⟩
      rw [Lexer.position, hfrom]
      exact ⟨ha, hmem, rfl⟩
    · rintro ⟨literal, hslice, ha, hmem, hhead⟩
      obtain ⟨back, hrest, rfl⟩ := hb.slice?_eq_some_iff.mp hslice
      rw [hb.fromByte_add hrest] at ha hhead
      obtain ⟨rest, rfl⟩ := List.head?_eq_some_iff.mp hhead
      exact ⟨literal, rest, hrest, rfl, ha, hmem⟩
  · obtain ⟨rest, hrest, ha, hh⟩ := halted_capture describes_nil (admissible_nil l.cursor.rest)
    rcases hc : capture {} l.cursor.rest with ⟨literal, result⟩
    simp only [hc, List.nil_append] at hrest ha hh
    have hnone : result = none := by
      cases hh with
      | finished => rfl
      | stopped => rfl
      | clashed hm hmem =>
        have herror := (Lexer.nextToken_error_iff h hm).mpr ⟨literal, _, hrest, rfl, ha, hmem⟩
        exact absurd herror (hno _ _ hm _)
    subst hnone
    obtain ⟨hvalue, hpos⟩ := Lexer.nextToken_of_capture h hc
    have hfrom := hb.fromByte_add hrest
    refine ⟨literal, hb.slice?_eq_some_iff.mpr ⟨rest, hrest, hpos⟩, ?_, ?_, ?_, hvalue⟩
    · rw [hpos, Lexer.position, hfrom]
      exact ha
    · intro c back hback hgrown
      rw [hpos, Lexer.position, hfrom] at hback
      exact hh.not_mayFollow hback (admissible_concat.mp hgrown).2
    · intro other back hother ha'
      exact hh.isPrefix (hother.symm.trans hrest) ha'

/-- A second `r` behind a point is refused, and a second minus sign ends the literal. -/
theorem nextToken_number_second_marks :
    (Lexer.ofOffset ('é' :: " 2r1.r0".toList) 3).nextToken.1 = .error ⟨.multipleRadix, 7⟩ ∧
      ∃ literal, Text.slice? "-5-3".toList 0 2 = some literal ∧
        ¬ Admissible (literal ++ ['-']) ['3'] := by
  refine ⟨?_, ?_⟩
  · have hstart : StartsInteger (Lexer.ofOffset ('é' :: " 2r1.r0".toList) 3).cursor.rest :=
      ⟨'2', "r1.r0".toList, by decide, Or.inl (by decide +kernel)⟩
    refine ((nextToken_number hstart).2.1 _ _ .radix 7).mpr ⟨"2r1.".toList, ?_⟩
    decide +kernel
  · have hstart : StartsInteger (Lexer.ofOffset "-5-3".toList 0).cursor.rest :=
      ⟨'5', "-3".toList, by decide, Or.inr (by decide +kernel)⟩
    have hno : ∀ fault mark, Mark fault mark → ∀ offset,
        (Lexer.ofOffset "-5-3".toList 0).nextToken.1 ≠ .error ⟨fault, offset⟩ := by
      have hok : (Lexer.ofOffset "-5-3".toList 0).nextToken.1.isOk = true := by decide +kernel
      intro fault mark _ offset herror
      rw [herror] at hok
      cases hok
    obtain ⟨literal, hslice, -, hend, -⟩ := (nextToken_number hstart).2.2 hno
    have hstop : (Lexer.ofOffset "-5-3".toList 0).nextToken.2.position = 2 := by decide +kernel
    rw [hstop] at hslice hend
    exact ⟨literal, hslice, hend '-' ['3'] (by decide +kernel)⟩

end Smalltalk
