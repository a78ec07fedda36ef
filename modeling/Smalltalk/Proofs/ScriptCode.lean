import Smalltalk.Proofs.LineComments
import Smalltalk.Proofs.NumberText
import Smalltalk.Proofs.Rendering

/-! # The code of a script

The code of a script is what is left of it without line comments and without the white space outside
of its literals. It is read character by character; only a slash waits for the next character, which
shows whether it starts a comment.

* `Script.follow`: what a reader keeps of a script and where he stands at its end. `Script.code`:
  the code.
* `Script.Solid`, `solid_ofToken`: the script of a token that is neither a comment nor blank leaves
  the reader outside of literals and comments, and something of it is kept.
* `Script.follow_comment`: within a comment nothing of it is, if it has no line end. -/

namespace Smalltalk

/-! ### Reading a script -/

namespace Script

/-- White space and line ends of a script. -/
def isBlank (c : Char) : Bool :=
  [0x09, 0x0A, 0x0B, 0x0C, 0x0D, 0x20, 0xA0, 0x1680, 0x2028, 0x2029, 0x202F, 0x205F, 0x3000,
    0xFEFF].contains c.toNat || (0x2000 ≤ c.toNat && c.toNat ≤ 0x200A)

/-- Where a reader of a script stands. -/
inductive Mode where
  /-- Outside of literals and comments. -/
  | code
  /-- Behind a slash that may start a comment. -/
  | slash
  /-- In a line comment. -/
  | comment
  /-- In a literal that ends with `delimiter`, maybe behind a backslash. -/
  | literal (delimiter : Char) (escaped : Bool)
  deriving DecidableEq

/-- What is kept of a character outside of literals and comments, and where the reader stands behind
it. A slash is kept once the next character shows that it starts no comment. -/
def codeStep (c : Char) : Text × Mode :=
  if c = '/' then ([], .slash)
  else if c = '\x60' ∨ c = '\x22' then ([c], .literal c false)
  else if isBlank c then ([], .code)
  else ([c], .code)

/-- What is kept of a character, and where the reader stands behind it. -/
def step : Mode → Char → Text × Mode
  | .code, c => codeStep c
  | .slash, c => if c = '/' then ([], .comment) else ('/' :: (codeStep c).1, (codeStep c).2)
  | .comment, c => ([], if isLineTerminator c then .code else .comment)
  | .literal d true, c => ([c], .literal d false)
  | .literal d false, c =>
    ([c], if c = '\\' then .literal d true else if c = d then .code else .literal d false)

/-- What is kept of a script, and where the reader stands at its end. -/
def follow (m : Mode) : Text → Text × Mode
  | [] => ([], m)
  | c :: t => ((step m c).1 ++ (follow (step m c).2 t).1, (follow (step m c).2 t).2)

/-- The code of a script that is read from `m` on. A slash at its end starts no comment. -/
def codeFrom (m : Mode) (js : Text) : Text :=
  (follow m js).1 ++ if (follow m js).2 = .slash then ['/'] else []

/-- **The code of a script:** the script without line comments and without the white space outside
of its literals, which have no substitutions. -/
def code (js : Text) : Text := codeFrom .code js

theorem follow_append (m : Mode) (s t : Text) :
    follow m (s ++ t) =
      ((follow m s).1 ++ (follow (follow m s).2 t).1, (follow (follow m s).2 t).2) := by
  induction s generalizing m with
  | nil => rfl
  | cons c s ih =>
    rw [List.cons_append, follow, ih, follow]
    simp only [List.append_assoc]

theorem mode_append {m m' : Mode} {s : Text} (h : (follow m s).2 = m') (t : Text) :
    (follow m (s ++ t)).2 = (follow m' t).2 := by
  rw [follow_append, h]

theorem codeFrom_append (m : Mode) (s t : Text) :
    codeFrom m (s ++ t) = (follow m s).1 ++ codeFrom (follow m s).2 t := by
  unfold codeFrom
  rw [follow_append, List.append_assoc]

/-- A slash that starts no comment is kept and changes nothing for what follows it. -/
theorem follow_slash {c : Char} (hc : c ≠ '/') (t : Text) :
    follow .slash (c :: t) =
      ('/' :: (follow .code (c :: t)).1, (follow .code (c :: t)).2) := by
  simp only [follow, step, if_neg hc, List.cons_append]

/-! ### Blanks and plain characters -/

theorem codeStep_of_isBlank {c : Char} (h : isBlank c) : codeStep c = ([], .code) := by
  have hs : c ≠ '/' := by rintro rfl; revert h; decide
  have hl : ¬ (c = '\x60' ∨ c = '\x22') := by rintro (rfl | rfl) <;> revert h <;> decide
  rw [codeStep, if_neg hs, if_neg hl, if_pos h]

theorem follow_code_blanks {w : Text} (h : ∀ c ∈ w, isBlank c) : follow .code w = ([], .code) := by
  induction w with
  | nil => rfl
  | cons c w ih =>
    rw [follow, step, codeStep_of_isBlank (h c (by simp)), ih (fun d hd => h d (by simp [hd]))]
    rfl

/-- A comment ends with the first line end. -/
theorem follow_comment_blanks {w : Text} (h : ∀ c ∈ w, isBlank c) :
    follow .comment w = ([], if w.any isLineTerminator then .code else .comment) := by
  induction w with
  | nil => rfl
  | cons c w ih =>
    have hw : ∀ d ∈ w, isBlank d := fun d hd => h d (by simp [hd])
    by_cases hc : isLineTerminator c
    · simp only [follow, step, hc, if_true, follow_code_blanks hw, List.any_cons, Bool.true_or]
      rfl
    · simp [follow, step, hc, ih hw]

/-- The character is kept and starts nothing. -/
def IsPlain (c : Char) : Prop := codeStep c = ([c], .code)

instance (c : Char) : Decidable (IsPlain c) := by
  unfold IsPlain; infer_instance

theorem mode_plain {t : Text} (h : ∀ c ∈ t, IsPlain c) : (follow .code t).2 = .code := by
  induction t with
  | nil => rfl
  | cons c t ih =>
    have hc : codeStep c = ([c], .code) := h c (by simp)
    rw [follow, step, hc]
    exact ih fun d hd => h d (by simp [hd])

theorem isPlain_of_isDigit {c : Char} (h : c.isDigit) : IsPlain c := by
  have hrange : 48 ≤ c.toNat ∧ c.toNat ≤ 57 := by
    simpa [Char.isDigit, UInt32.le_iff_toNat_le] using h
  have hs : c ≠ '/' := by rintro rfl; revert h; decide
  have hl : ¬ (c = '\x60' ∨ c = '\x22') := by rintro (rfl | rfl) <;> revert h <;> decide
  have hb : isBlank c = false := by
    rw [isBlank, Bool.or_eq_false_iff]
    constructor
    · simp only [List.contains_eq_mem, List.mem_cons, List.not_mem_nil, or_false,
        decide_eq_false_iff_not]
      omega
    · simp only [Bool.and_eq_false_iff, decide_eq_false_iff_not]
      omega
  rw [IsPlain, codeStep, if_neg hs, if_neg hl, hb]
  rfl

theorem isPlain_of_isWritten {c : Char} (h : Double.IsWritten c) : IsPlain c := by
  rcases h with h | h
  · exact isPlain_of_isDigit h
  · exact Text.forall_of_all (p := IsPlain) (by decide) c h

/-! ### Literals -/

theorem mode_escaped (d c : Char) (t : Text) :
    (follow (.literal d false) ('\\' :: c :: t)).2 = (follow (.literal d false) t).2 := rfl

theorem mode_literal {d c : Char} (hb : c ≠ '\\') (hd : c ≠ d) (t : Text) :
    (follow (.literal d false) (c :: t)).2 = (follow (.literal d false) t).2 := by
  simp only [follow, step, if_neg hb, if_neg hd]

theorem mode_templateBody (v : Text) :
    (follow (.literal '\x60' false) (templateBody v)).2 = .literal '\x60' false := by
  induction v with
  | nil => rfl
  | cons c v ih =>
    rw [templateBody]
    split
    · rw [mode_escaped, ih]
    · next hc =>
      rw [mode_literal (fun h => hc (Or.inl h)) (fun h => hc (Or.inr (Or.inl h))), ih]

theorem mode_templateLiteral (v : Text) : (follow .code (templateLiteral v)).2 = .code := by
  change (follow (.literal '\x60' false) (templateBody v ++ ['\x60'])).2 = .code
  rw [mode_append (mode_templateBody v)]
  rfl

/-- An escaped character of a JSON string never ends the string. -/
theorem mode_jsonChar (c : Char) :
    (follow (.literal '\x22' false) (Text.jsonChar c)).2 = .literal '\x22' false := by
  unfold Text.jsonChar
  split
  any_goals rfl
  next hquote hback _ _ _ _ _ =>
    split
    · have hdigit : ∀ n < 16, Nat.digitChar n ≠ '\\' ∧ Nat.digitChar n ≠ '\x22' := by decide
      have hhigh := hdigit (c.toNat / 16) (by omega)
      have hlow := hdigit (c.toNat % 16) (by omega)
      rw [mode_escaped, mode_literal (by decide) (by decide), mode_literal (by decide) (by decide),
        mode_literal hhigh.1 hhigh.2, mode_literal hlow.1 hlow.2]
      rfl
    · exact mode_literal hback hquote []

theorem mode_jsonBody (v : Text) :
    (follow (.literal '\x22' false) (v.flatMap Text.jsonChar)).2 = .literal '\x22' false := by
  induction v with
  | nil => rfl
  | cons c v ih => rw [List.flatMap_cons, mode_append (mode_jsonChar c), ih]

theorem mode_jsonString (v : Text) : (follow .code v.jsonString).2 = .code := by
  change (follow (.literal '\x22' false) (v.flatMap Text.jsonChar ++ ['\x22'])).2 = .code
  rw [mode_append (mode_jsonBody v)]
  rfl

theorem mode_symbol (v : Text) : (follow .code (symbol v)).2 = .code := by
  have hname : ∀ c ∈ "Symbol.for(".toList, IsPlain c := Text.forall_of_all (by decide)
  have hclose : ∀ c ∈ [')'], IsPlain c := Text.forall_of_all (by decide)
  have hopen : (follow .code ("Symbol.for(".toList ++ v.jsonString)).2 = .code :=
    (mode_append (mode_plain hname) _).trans (mode_jsonString v)
  exact (mode_append hopen _).trans (mode_plain hclose)

theorem isLineTerminator_of_isPlain {c : Char} (h : IsPlain c) : isLineTerminator c = false := by
  rw [Bool.eq_false_iff]
  intro hc
  rcases isLineTerminator_cases hc with rfl | rfl | rfl | rfl <;> revert h <;> decide

theorem isLineTerminator_templateBody {v : Text} (h : ∀ c ∈ v, isLineTerminator c = false) :
    ∀ c ∈ templateBody v, isLineTerminator c = false := by
  induction v with
  | nil => simp [templateBody]
  | cons d v ih =>
    have hd := h d (by simp)
    have hv := ih fun c hc => h c (by simp [hc])
    intro c hc
    rw [templateBody] at hc
    split at hc
    · simp only [List.mem_cons] at hc
      rcases hc with rfl | rfl | hc
      · decide
      · exact hd
      · exact hv c hc
    · rcases List.mem_cons.mp hc with rfl | hc
      · exact hd
      · exact hv c hc

theorem isLineTerminator_jsonChar {d : Char} (h : isLineTerminator d = false) :
    ∀ c ∈ Text.jsonChar d, isLineTerminator c = false := by
  unfold Text.jsonChar
  split
  any_goals (refine Text.forall_of_all ?_; decide)
  split
  · next hlow =>
    have hdigit : ∀ n < 16, isLineTerminator (Nat.digitChar n) = false := by decide
    have hhigh := hdigit (d.toNat / 16) (by omega)
    have hrest := hdigit (d.toNat % 16) (by omega)
    intro c hc
    simp only [List.mem_cons, List.not_mem_nil, or_false] at hc
    rcases hc with rfl | rfl | rfl | rfl | rfl | rfl
    any_goals decide
    · exact hhigh
    · exact hrest
  · intro c hc
    rw [List.mem_singleton.mp hc]
    exact h

end Script

/-! ### The script of a token -/

namespace Token

/-- The slash that stands for a division. -/
def division : Token := ⟨.special, ['/']⟩

theorem ne_division {k : Token} (h : k.kind ≠ .special) : k ≠ .division := by
  rintro rfl
  exact h rfl

/-- A string or symbol of one line; other tokens never have a line end within their script. -/
def IsOneLine (k : Token) : Prop :=
  k.kind = .string ∨ k.kind = .symbol → ∀ c ∈ k.value, Script.isLineTerminator c = false

end Token

namespace Script

/-- **The script of a token that is neither a comment nor blank,** read outside of literals and
comments: the reader is outside of them again at its end, and something of it is kept. Only behind a
division the next character matters. -/
structure Solid (k : Token) (js : Text) : Prop where
  mode : (follow .code js).2 = if k = .division then .slash else .code
  head : k ≠ .division → ∃ c t, js = c :: t ∧ c ≠ '/' ∧ (codeStep c).1 = [c]
  oneLine : k.IsOneLine → ∀ c ∈ js, isLineTerminator c = false

theorem solid_plain {k : Token} {js : Text} (hk : k ≠ .division) (hne : js ≠ [])
    (h : ∀ c ∈ js, IsPlain c) : Solid k js := by
  refine ⟨?_, fun _ => ?_, fun _ c hc => isLineTerminator_of_isPlain (h c hc)⟩
  · rw [if_neg hk]
    exact mode_plain h
  · obtain ⟨c, t, rfl⟩ := List.exists_cons_of_ne_nil hne
    have hc : codeStep c = ([c], .code) := h c (by simp)
    refine ⟨c, t, rfl, ?_, by rw [hc]⟩
    rintro rfl
    cases hc

theorem solid_division : Solid .division ['/'] := by
  refine ⟨rfl, fun h => absurd rfl h, fun _ => Text.forall_of_all (by decide)⟩

theorem solid_string (v : Text) : Solid ⟨.string, v⟩ (templateLiteral v) := by
  refine ⟨mode_templateLiteral v, fun _ => ⟨_, _, rfl, by decide, rfl⟩, fun h c hc => ?_⟩
  have hv := isLineTerminator_templateBody (h (Or.inl rfl))
  simp only [templateLiteral, List.mem_cons, List.mem_append, List.not_mem_nil, or_false] at hc
  rcases hc with (rfl | hc) | rfl
  · decide
  · exact hv c hc
  · decide

theorem solid_symbol (v : Text) : Solid ⟨.symbol, v⟩ (symbol v) := by
  have hs : codeStep 'S' = (['S'], .code) := by decide
  have hname : "Symbol.for(".toList.head? = some 'S' := by decide
  obtain ⟨t, ht⟩ := List.head?_eq_some_iff.mp hname
  have hhead : symbol v = 'S' :: (t ++ v.jsonString ++ [')']) := by
    unfold symbol
    rw [ht]
    rfl
  refine ⟨mode_symbol v, fun _ => ⟨'S', _, hhead, by decide, by rw [hs]⟩, fun h c hc => ?_⟩
  have hline : ∀ c ∈ "Symbol.for(".toList, isLineTerminator c = false :=
    Text.forall_of_all (by decide)
  unfold symbol at hc
  simp only [Text.jsonString, List.mem_append, List.mem_flatMap, List.mem_singleton] at hc
  rcases hc with (hc | (rfl | ⟨d, hd, hc⟩) | rfl) | rfl
  · exact hline c hc
  · decide
  · exact isLineTerminator_jsonChar (h (Or.inr rfl) d hd) c hc
  · decide
  · decide

theorem solid_operator {v js : Text} (h : operator? v = some js) : Solid ⟨.special, v⟩ js := by
  unfold operator? at h
  split at h
  all_goals cases h
  · exact solid_plain (by decide) (by decide) (Text.forall_of_all (by decide))
  · exact solid_plain (by decide) (by decide) (Text.forall_of_all (by decide))
  · exact solid_plain (by decide) (by decide) (Text.forall_of_all (by decide))
  · exact solid_division
  · exact solid_plain (by decide) (by decide) (Text.forall_of_all (by decide))
  · exact solid_plain (by decide) (by decide) (Text.forall_of_all (by decide))

theorem solid_ofToken {k : Token} {js : Text} (hshape : k.HasShape) (hjs : ofToken k = .ok js)
    (hcomment : k.kind ≠ .comment) (hblank : k.kind ≠ .whitespace) : Solid k js := by
  obtain ⟨kind, value⟩ := k
  cases kind with
  | number =>
    obtain ⟨v, rfl⟩ : ∃ v : Double, value = v.toText := hshape
    obtain rfl : v.toText = js := Except.ok.inj hjs
    exact solid_plain (by simp [Token.division]) v.toText_ne_nil
      fun c hc => isPlain_of_isWritten (v.isWritten_toText c hc)
  | string =>
    obtain rfl : templateLiteral value = js := Except.ok.inj hjs
    exact solid_string value
  | symbol =>
    obtain rfl : symbol value = js := Except.ok.inj hjs
    exact solid_symbol value
  | special =>
    rcases hop : operator? value with _ | js'
    · simp [ofToken, hop] at hjs
    · simp only [ofToken, hop, Except.ok.injEq] at hjs
      rw [← hjs]
      exact solid_operator hop
  | comment => exact absurd rfl hcomment
  | whitespace => exact absurd rfl hblank
  | _ => cases hjs

/-- Such a script is read alike behind a slash that starts no comment with it. -/
theorem Solid.mode_eq {k : Token} {js : Text} (h : Solid k js) {m : Mode}
    (hm : m = .code ∨ m = .slash ∧ k ≠ .division) :
    (follow m js).2 = if k = .division then .slash else .code := by
  rcases hm with rfl | ⟨rfl, hk⟩
  · exact h.mode
  · obtain ⟨c, t, rfl, hc, -⟩ := h.head hk
    rw [follow_slash hc]
    exact h.mode

/-- Only of a division nothing is kept at first. -/
theorem Solid.kept_ne_nil {k : Token} {js : Text} (h : Solid k js) {m : Mode}
    (hm : m = .code ∨ m = .slash) (hk : k ≠ .division) : (follow m js).1 ≠ [] := by
  obtain ⟨c, t, rfl, hc, hstep⟩ := h.head hk
  rcases hm with rfl | rfl
  · simp [follow, step, hstep]
  · simp [follow_slash hc]

/-- Nothing of a script of one line is kept within a comment, and the comment goes on. -/
theorem follow_comment {t : Text} (h : ∀ c ∈ t, isLineTerminator c = false) :
    follow .comment t = ([], .comment) := by
  induction t with
  | nil => rfl
  | cons c t ih =>
    have hstep : step .comment c = ([], .comment) := by
      rw [step, h c (by simp)]
      rfl
    rw [follow, hstep, ih fun d hd => h d (by simp [hd])]
    rfl

end Script

end Smalltalk
