import Smalltalk.Proofs.LineComments
import Smalltalk.Proofs.LiteralFaults
import Smalltalk.Proofs.Templates

/-! # What a template literal evaluates to

The value of a template literal is a string of UTF-16 code units. Characters stand for themselves,
escape sequences for what they encode, and a carriage return, with or without a line feed behind it,
for a line feed. The last rule is the one that a rendered string does not escape from: its value is
the string with its carriage returns turned into line feeds.

* `Template.escape?`: what an escape sequence stands for, by all rules of the language.
* `Template.value?`: the value of a template literal without substitutions.
* `Template.bodyValue?_templateBody`: the value of a rendered string.
* `templateLiteral_value`: it is the string itself exactly if that has no carriage return. -/

namespace Smalltalk

namespace Text

/-- The code units of a code point: itself, or two surrogates if it lies beyond `U+FFFF`. -/
def codeUnits (code : Nat) : List UInt16 :=
  if code < 0x10000 then [UInt16.ofNat code]
  else [UInt16.ofNat (0xD800 + (code - 0x10000) / 0x400),
    UInt16.ofNat (0xDC00 + (code - 0x10000) % 0x400)]

/-- The text as a string of the script: its code units. -/
def units (t : Text) : List UInt16 := t.flatMap fun c => codeUnits c.toNat

/-- The text behind a line feed at its front, if there is one. -/
def dropFeed (t : Text) : Text := if t.head? = some '\n' then t.tail else t

/-- The text with each carriage return, and a line feed behind it, turned into one line feed. -/
def lineFeeds : Text → Text
  | [] => []
  | '\r' :: '\n' :: t => '\n' :: lineFeeds t
  | c :: t => (if c = '\r' then '\n' else c) :: lineFeeds t

end Text

namespace Template

/-! ### Escape sequences -/

/-- The value of a hexadecimal digit. -/
def hexDigit? (c : Char) : Option Nat := (CharClass.digitValue? c).filter (· < 16)

/-- The value of a hexadecimal numeral of at least one digit. -/
def hexValue? (digits : Text) : Option Nat :=
  if digits = [] then none
  else (digits.mapM hexDigit?).map (·.foldl (fun n d => 16 * n + d) 0)

/-- A code unit of `count` hexadecimal digits, and the text behind it. -/
def hexEscape? (count : Nat) (t : Text) : Option (List UInt16 × Text) :=
  if t.length < count then none
  else (hexValue? (t.take count)).map fun code => (Text.codeUnits code, t.drop count)

/-- A code point up to the closing brace, and the text behind it. -/
def bracedEscape? (t : Text) : Option (List UInt16 × Text) :=
  match t.cut '\x7d' with
  | (_, none) => none
  | (digits, some rest) =>
    (hexValue? digits).bind fun code =>
      if code ≤ 0x10FFFF then some (Text.codeUnits code, rest) else none

/-- The code point that one escaped character stands for. -/
def escapedCode (c : Char) : Nat :=
  match c with
  | 'b' => 0x08
  | 't' => 0x09
  | 'n' => 0x0A
  | 'v' => 0x0B
  | 'f' => 0x0C
  | 'r' => 0x0D
  | c => c.toNat

/-- **What an escape sequence stands for,** from what follows its backslash, and the text behind it.
A line end stands for the empty string. A digit is no escape, except that `0` is the null character
if no digit follows it. -/
def escape? : Text → Option (List UInt16 × Text)
  | [] => none
  | c :: t =>
    if c = 'x' then hexEscape? 2 t
    else if c = 'u' then
      if t.head? = some '\x7b' then bracedEscape? t.tail else hexEscape? 4 t
    else if c = '\r' then some ([], Text.dropFeed t)
    else if Script.isLineTerminator c then some ([], t)
    else if c = '0' ∧ ¬ t.head?.any Char.isDigit then some (Text.codeUnits 0, t)
    else if c.isDigit then none
    else some (Text.codeUnits (escapedCode c), t)

theorem length_dropFeed_le (t : Text) : t.dropFeed.length ≤ t.length := by
  unfold Text.dropFeed
  split
  · rw [List.length_tail]
    omega
  · exact Nat.le_refl _

theorem hexEscape?_length {count : Nat} {t rest : Text} {units : List UInt16}
    (h : hexEscape? count t = some (units, rest)) : rest.length ≤ t.length := by
  unfold hexEscape? at h
  split at h
  · cases h
  · obtain ⟨code, -, hc⟩ := Option.map_eq_some_iff.mp h
    rw [← (Prod.mk.inj hc).2, List.length_drop]
    omega

theorem bracedEscape?_length {t rest : Text} {units : List UInt16}
    (h : bracedEscape? t = some (units, rest)) : rest.length ≤ t.length := by
  unfold bracedEscape? at h
  split at h
  · cases h
  · next digits rest' hcut =>
    obtain ⟨code, -, hc⟩ := Option.bind_eq_some_iff.mp h
    split at hc
    · obtain ⟨-, rfl⟩ := Prod.mk.inj (Option.some.inj hc)
      rw [Text.cut_eq_some hcut]
      simp
      omega
    · cases hc

/-- An escape sequence leaves less than it was read from. -/
theorem escape?_length {t rest : Text} {units : List UInt16} (h : escape? t = some (units, rest)) :
    rest.length < t.length := by
  cases t with
  | nil => cases h
  | cons c t =>
    rw [List.length_cons]
    rw [escape?] at h
    split at h
    · exact Nat.lt_succ_of_le (hexEscape?_length h)
    split at h
    · split at h
      · have hlen := bracedEscape?_length h
        rw [List.length_tail] at hlen
        omega
      · exact Nat.lt_succ_of_le (hexEscape?_length h)
    split at h
    · obtain ⟨-, rfl⟩ := Prod.mk.inj (Option.some.inj h)
      exact Nat.lt_succ_of_le (length_dropFeed_le t)
    split at h
    · obtain ⟨-, rfl⟩ := Prod.mk.inj (Option.some.inj h)
      omega
    split at h
    · obtain ⟨-, rfl⟩ := Prod.mk.inj (Option.some.inj h)
      omega
    split at h
    · cases h
    · obtain ⟨-, rfl⟩ := Prod.mk.inj (Option.some.inj h)
      omega

/-! ### Literals -/

/-- The value of a template literal, from what follows its opening backquote. The literal has no
substitutions and ends with the text. -/
def bodyValue? : Text → Option (List UInt16)
  | [] => none
  | c :: t =>
    if c = '\x60' then if t = [] then some [] else none
    else if c = '$' ∧ t.head? = some '\x7b' then none
    else if c = '\\' then
      match h : escape? t with
      | none => none
      | some (units, rest) =>
        have := escape?_length h
        (bodyValue? rest).map (units ++ ·)
    else if c = '\r' then
      have := length_dropFeed_le t
      (bodyValue? (Text.dropFeed t)).map (Text.codeUnits '\n'.toNat ++ ·)
    else (bodyValue? t).map (Text.codeUnits c.toNat ++ ·)
termination_by t => t.length
decreasing_by all_goals simp only [List.length_cons]; omega

/-- **The value of a template literal** without substitutions. -/
def value? (js : Text) : Option (List UInt16) :=
  if js.head? = some '\x60' then bodyValue? js.tail else none

theorem bodyValue?_close : bodyValue? ['\x60'] = some [] := by
  simp [bodyValue?]

theorem bodyValue?_escape {t rest : Text} {units : List UInt16}
    (h : escape? t = some (units, rest)) :
    bodyValue? ('\\' :: t) = (bodyValue? rest).map (units ++ ·) := by
  rw [bodyValue?, if_neg (by decide), if_neg (by simp), if_pos rfl]
  split
  · next hn => simp [hn] at h
  · next units' rest' hs =>
    obtain ⟨rfl, rfl⟩ := Prod.mk.inj (Option.some.inj (hs.symm.trans h))
    rfl

theorem bodyValue?_return (t : Text) :
    bodyValue? ('\r' :: t) =
      (bodyValue? (Text.dropFeed t)).map (Text.codeUnits '\n'.toNat ++ ·) := by
  rw [bodyValue?, if_neg (by decide), if_neg (by simp), if_neg (by decide), if_pos rfl]

theorem bodyValue?_plain {c : Char} {t : Text} (hq : c ≠ '\x60')
    (hs : ¬ (c = '$' ∧ t.head? = some '\x7b')) (hb : c ≠ '\\') (hr : c ≠ '\r') :
    bodyValue? (c :: t) = (bodyValue? t).map (Text.codeUnits c.toNat ++ ·) := by
  rw [bodyValue?, if_neg hq, if_neg hs, if_neg hb, if_neg hr]

/-! ### Rendered strings -/

/-- The characters that are ever escaped stand for themselves. -/
theorem escape?_of_escaped {c : Char} (h : c = '\\' ∨ c = '\x60' ∨ c = '$') (t : Text) :
    escape? (c :: t) = some (Text.codeUnits c.toNat, t) := by
  rcases h with rfl | rfl | rfl <;> rfl

/-- A literal whose next character is neither a backslash nor a backquote goes on with it. -/
theorem head?_of_templateBody {v : Text} {d : Char}
    (h : (Script.templateBody v ++ ['\x60']).head? = some d) (hb : d ≠ '\\') (hq : d ≠ '\x60') :
    v.head? = some d := by
  cases v with
  | nil =>
    have hd : '\x60' = d := by simpa [Script.templateBody] using h
    exact absurd hd.symm hq
  | cons c v =>
    rw [Script.templateBody] at h
    split at h
    · have hd : '\\' = d := by simpa using h
      exact absurd hd.symm hb
    · simpa using h

/-- **The value of a rendered string** is the string with line feeds for its carriage returns. -/
theorem bodyValue?_templateBody (v : Text) :
    bodyValue? (Script.templateBody v ++ ['\x60']) = some v.lineFeeds.units := by
  fun_induction Text.lineFeeds v with
  | case1 => exact bodyValue?_close
  | case2 t ih =>
    have hbody : Script.templateBody ('\r' :: '\n' :: t) =
        '\r' :: '\n' :: Script.templateBody t := by
      simp [Script.templateBody]
    rw [hbody, List.cons_append, List.cons_append, bodyValue?_return]
    change (bodyValue? (Script.templateBody t ++ ['\x60'])).map _ = _
    rw [ih]
    rfl
  | case3 c t hcr ih =>
    by_cases hc : c = '\\' ∨ c = '\x60' ∨ (c = '$' ∧ t.head? = some '\x7b')
    · have hesc : c = '\\' ∨ c = '\x60' ∨ c = '$' := hc.imp_right (Or.imp_right And.left)
      have hr : c ≠ '\r' := by rcases hesc with rfl | rfl | rfl <;> decide
      rw [Script.templateBody, if_pos hc, List.cons_append, List.cons_append,
        bodyValue?_escape (escape?_of_escaped hesc _), ih, if_neg hr]
      rfl
    · rw [Script.templateBody, if_neg hc, List.cons_append]
      have hb : c ≠ '\\' := fun h => hc (Or.inl h)
      have hq : c ≠ '\x60' := fun h => hc (Or.inr (Or.inl h))
      by_cases hr : c = '\r'
      · -- no line feed follows, so the carriage return stands for one by itself
        have hfeed : (Script.templateBody t ++ ['\x60']).head? ≠ some '\n' := by
          intro h
          obtain ⟨t', rfl⟩ := List.head?_eq_some_iff.mp
            (head?_of_templateBody h (by decide) (by decide))
          exact hcr t' hr rfl
        rw [if_pos hr, hr, bodyValue?_return, Text.dropFeed, if_neg hfeed, ih]
        rfl
      · have hs : ¬ (c = '$' ∧ (Script.templateBody t ++ ['\x60']).head? = some '\x7b') := by
          rintro ⟨hd, h⟩
          exact hc (Or.inr (Or.inr ⟨hd, head?_of_templateBody h (by decide) (by decide)⟩))
        rw [if_neg hr, bodyValue?_plain hq hs hb hr, ih]
        rfl

theorem value?_templateLiteral (v : Text) :
    value? (Script.templateLiteral v) = some v.lineFeeds.units :=
  bodyValue?_templateBody v

end Template

/-! ### Carriage returns -/

namespace Text

theorem lineFeeds_eq_self {v : Text} (h : '\r' ∉ v) : v.lineFeeds = v := by
  fun_induction lineFeeds v with
  | case1 => rfl
  | case2 => simp at h
  | case3 c t _ ih =>
    have hc : c ≠ '\r' := fun hc => h (by simp [hc])
    rw [if_neg hc, ih (fun ht => h (by simp [ht]))]

theorem return_notMem_lineFeeds (v : Text) : '\r' ∉ v.lineFeeds := by
  fun_induction lineFeeds v with
  | case1 => simp
  | case2 t ih => simpa using ih
  | case3 c t _ ih =>
    rw [List.mem_cons, not_or]
    refine ⟨?_, ih⟩
    split
    · decide
    · next hc => exact fun h => hc h.symm

theorem toNat_lt (c : Char) : c.toNat < 0x110000 := by
  have hvalid : c.toNat < 0xD800 ∨ 0xDFFF < c.toNat ∧ c.toNat < 0x110000 := c.valid
  omega

/-- A code unit is the code point itself or one of the surrogates. -/
theorem toNat_of_mem_codeUnits {code : Nat} {unit : UInt16} (hmax : code < 0x110000)
    (h : unit ∈ codeUnits code) : unit.toNat = code ∨ 0xD800 ≤ unit.toNat := by
  unfold codeUnits at h
  split at h
  · next hlt =>
    left
    rw [List.mem_singleton.mp h]
    exact UInt16.toNat_ofNat_of_lt' hlt
  · next hge =>
    have hsize : UInt16.size = 65536 := rfl
    right
    simp only [List.mem_cons, List.not_mem_nil, or_false] at h
    rcases h with rfl | rfl
    · rw [UInt16.toNat_ofNat_of_lt' (by omega)]
      omega
    · rw [UInt16.toNat_ofNat_of_lt' (by omega)]
      omega

/-- Only a carriage return has its code unit. -/
theorem return_mem_codeUnits {c : Char} : 13 ∈ codeUnits c.toNat ↔ c = '\r' := by
  constructor
  · intro h
    rcases toNat_of_mem_codeUnits (toNat_lt c) h with hcode | hcode
    · exact Char.toNat_inj.mp hcode.symm
    · exact absurd hcode (by decide)
  · rintro rfl
    decide

theorem return_mem_units {v : Text} : 13 ∈ v.units ↔ '\r' ∈ v := by
  simp only [units, List.mem_flatMap, return_mem_codeUnits]
  constructor
  · rintro ⟨c, hc, rfl⟩
    exact hc
  · intro h
    exact ⟨_, h, rfl⟩

end Text

/-- **A rendered string evaluates to the string with line feeds for its carriage returns,** that is
to the string itself exactly if it has no carriage return. -/
theorem templateLiteral_value (v : Text) :
    Template.value? (Script.templateLiteral v) = some v.lineFeeds.units ∧
      (Template.value? (Script.templateLiteral v) = some v.units ↔ '\r' ∉ v) := by
  have hvalue := Template.value?_templateLiteral v
  refine ⟨hvalue, ?_⟩
  rw [hvalue, Option.some.injEq]
  constructor
  · intro h hv
    have hmem := Text.return_mem_units.mpr hv
    rw [← h] at hmem
    exact Text.return_notMem_lineFeeds v (Text.return_mem_units.mp hmem)
  · intro h
    rw [Text.lineFeeds_eq_self h]

/-- A string with a carriage return is rendered as a literal that evaluates to another string. -/
theorem templateLiteral_value_return :
    render "\x60a\rb\x60".toList = .ok (Script.templateLiteral "a\rb".toList) ∧
      Template.value? (Script.templateLiteral "a\rb".toList) = some (Text.units "a\nb".toList) ∧
      Template.value? (Script.templateLiteral "a\rb".toList) ≠ some (Text.units "a\rb".toList) := by
  have hvalue := Template.value?_templateLiteral "a\rb".toList
  refine ⟨render_eq_templateLiteral "a\rb".toList, hvalue, ?_⟩
  rw [hvalue]
  decide

end Smalltalk
