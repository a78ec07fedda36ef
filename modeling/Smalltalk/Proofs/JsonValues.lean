import Smalltalk.Text.Json
import Smalltalk.Proofs.LinePieces
import Smalltalk.Proofs.NumeralGrammar
import Smalltalk.Proofs.QuotedTexts

/-! # JSON texts and their values

A JSON text is one value, with blanks around it and between its parts. Values are read from the
front of a text; what stands behind a value decides whether it is complete, so `01` is a number with
a digit too many and no text.

Written without blanks, a value is read back as it was, whatever closes it: another item, the end of
a list or the end of the text. For strings that is the round trip of their escape sequences, for
lists an induction over the items, and a number ends because no digit, point or power follows it.

* `Json.read?`: the value of a text; `Json.compact`: the text of a value.
* `Json.Reads`: a reader reads a text as a value, wherever that may end.
* `Json.listed?_intercalate`: lists are read back if their items are.
* `Json.read?_compact`: a written value is read back. -/

namespace Smalltalk

/-! ### Strings -/

namespace Text

/-- The number of four hexadecimal digits at the front of a text, and what is behind it. -/
def codeUnit? (t : Text) : Option (Nat × Text) :=
  if t.length < 4 then none else (Template.hexValue? (t.take 4)).map fun unit => (unit, t.drop 4)

/-- The character of one code unit, or of two if the first is a surrogate. Surrogates come in pairs,
a high one and a low one. -/
def codeUnits? (t : Text) : Option (Char × Text) :=
  (codeUnit? t).bind fun (unit, rest) =>
    if unit.isValidChar then some (Char.ofNat unit, rest)
    else
      match rest with
      | '\\' :: 'u' :: rest =>
        (codeUnit? rest).bind fun (low, rest) =>
          if unit < 0xDC00 ∧ 0xDC00 ≤ low ∧ low < 0xE000 then
            some (Char.ofNat (0x10000 + (unit - 0xD800) * 0x400 + (low - 0xDC00)), rest)
          else none
      | _ => none

/-- What an escape sequence of a JSON string stands for, from what follows its backslash, and the
text behind it. -/
def jsonEscape? : Text → Option (Char × Text)
  | '\x22' :: t => some ('\x22', t)
  | '\\' :: t => some ('\\', t)
  | '/' :: t => some ('/', t)
  | 'b' :: t => some ('\x08', t)
  | 'f' :: t => some ('\x0c', t)
  | 'n' :: t => some ('\n', t)
  | 'r' :: t => some ('\r', t)
  | 't' :: t => some ('\t', t)
  | 'u' :: t => codeUnits? t
  | _ => none

/-- A character that may stand for itself in a JSON string: no control. -/
def isJsonPlain (c : Char) : Bool := 0x20 ≤ c.toNat

theorem codeUnit?_digits {high low : Nat} (hhigh : high < 16) (hlow : low < 16) (rest : Text) :
    codeUnit? ('0' :: '0' :: Nat.digitChar high :: Nat.digitChar low :: rest) =
      some (16 * high + low, rest) := by
  have hzero : Template.hexDigit? '0' = some 0 := by decide
  simp [codeUnit?, Template.hexValue?, hzero, hexDigit?_digitChar high hhigh,
    hexDigit?_digitChar low hlow]

theorem stands_jsonChar (c : Char) : Stands jsonEscape? isJsonPlain c (jsonChar c) := by
  unfold jsonChar
  split
  · exact Or.inr ⟨['\x22'], rfl, fun _ => rfl⟩
  · exact Or.inr ⟨['\\'], rfl, fun _ => rfl⟩
  · exact Or.inr ⟨['b'], rfl, fun _ => rfl⟩
  · exact Or.inr ⟨['f'], rfl, fun _ => rfl⟩
  · exact Or.inr ⟨['n'], rfl, fun _ => rfl⟩
  · exact Or.inr ⟨['r'], rfl, fun _ => rfl⟩
  · exact Or.inr ⟨['t'], rfl, fun _ => rfl⟩
  · next hquote hbackslash _ _ _ _ _ =>
    split
    · refine Or.inr ⟨_, rfl, fun rest => ?_⟩
      have hhigh : c.toNat / 16 < 16 := by omega
      have hunit := codeUnit?_digits hhigh (Nat.mod_lt c.toNat (by decide)) rest
      rw [Nat.div_add_mod] at hunit
      have hvalid : c.toNat.isValidChar := c.valid
      change codeUnits? ('0' :: '0' :: _ :: _ :: rest) = some (c, rest)
      simp only [codeUnits?, hunit, Option.bind_some, if_pos hvalid, Char.ofNat_toNat]
    · next hlow =>
      exact Or.inl ⟨rfl, hquote, hbackslash, decide_eq_true (not_lt.mp hlow)⟩

end Text

/-! ### Values and texts -/

/-- A JSON value. A number is an integer times a power of ten; the members of an object keep their
order. -/
inductive Json where
  | null
  | bool (b : Bool)
  | number (mantissa exponent : Int)
  | string (t : Text)
  | array (items : List Json)
  | object (members : List (Text × Json))

namespace Json

/-- What holds of a value because it holds of its parts holds of every value. -/
@[elab_as_elim, induction_eliminator]
theorem induction {P : Json → Prop} (null : P null) (bool : ∀ b, P (bool b))
    (number : ∀ mantissa exponent, P (number mantissa exponent)) (string : ∀ t, P (string t))
    (array : ∀ items, (∀ v ∈ items, P v) → P (array items))
    (object : ∀ members, (∀ m ∈ members, P m.2) → P (object members)) : ∀ v, P v
  | .null => null
  | .bool b => bool b
  | .number mantissa exponent => number mantissa exponent
  | .string t => string t
  | .array items => array items fun v h =>
    have := List.sizeOf_lt_of_mem h
    induction null bool number string array object v
  | .object members => object members fun (key, v) h =>
    have := List.sizeOf_lt_of_mem h
    have : sizeOf v < sizeOf (key, v) := by
      rw [Prod.mk.sizeOf_spec]
      omega
    induction null bool number string array object v

/-- An integer in decimal digits. -/
def integer (n : Int) : Text := (if n < 0 then ['-'] else []) ++ Text.ofNat n.natAbs

mutual

/-- **The text of a value,** without blanks. -/
def compact : Json → Text
  | null => ['n', 'u', 'l', 'l']
  | bool true => ['t', 'r', 'u', 'e']
  | bool false => ['f', 'a', 'l', 's', 'e']
  | number mantissa exponent =>
    integer mantissa ++ if exponent = 0 then [] else 'e' :: integer exponent
  | string t => t.jsonString
  | array items => '[' :: ([','].intercalate (compactItems items) ++ [']'])
  | object members => '\x7b' :: ([','].intercalate (compactMembers members) ++ ['\x7d'])

/-- The texts of the items of an array. -/
def compactItems : List Json → List Text
  | [] => []
  | v :: items => compact v :: compactItems items

/-- The texts of the members of an object. -/
def compactMembers : List (Text × Json) → List Text
  | [] => []
  | (key, v) :: members => (key.jsonString ++ ':' :: compact v) :: compactMembers members

end

/-- The text of a member of an object. -/
def compactMember (m : Text × Json) : Text := m.1.jsonString ++ ':' :: m.2.compact

theorem compactItems_eq (items : List Json) : compactItems items = items.map compact := by
  induction items with
  | nil => rfl
  | cons v items ih => rw [compactItems, ih, List.map_cons]

theorem compactMembers_eq (members : List (Text × Json)) :
    compactMembers members = members.map compactMember := by
  induction members with
  | nil => rfl
  | cons m members ih => rw [compactMembers, ih, List.map_cons, compactMember]

theorem compact_number (mantissa exponent : Int) : (number mantissa exponent).compact =
    integer mantissa ++ if exponent = 0 then [] else 'e' :: integer exponent := by rw [compact]

theorem compact_string (t : Text) : (string t).compact = t.jsonString := by rw [compact]

theorem compact_array (items : List Json) : (array items).compact =
    '[' :: ([','].intercalate (items.map compact) ++ [']']) := by rw [compact, compactItems_eq]

theorem compact_object (members : List (Text × Json)) : (object members).compact =
    '\x7b' :: ([','].intercalate (members.map compactMember) ++ ['\x7d']) := by
  rw [compact, compactMembers_eq]

/-! ### Readers -/

/-- A reader of something at the front of a text: what it is, and what is behind it. -/
abbrev Reader (α : Type) := Text → Option (α × Text)

/-- The text behind its blanks. -/
def skip (t : Text) : Text := t.dropWhile Char.isWhitespace

/-- The string up to the closing quote. -/
def string? : Reader Text := Text.delimited? Text.jsonEscape? Text.isJsonPlain

/-- Decimal digits, at least one. -/
def digits? : Reader Text := fun t =>
  if t.takeWhile Char.isDigit = [] then none
  else some (t.takeWhile Char.isDigit, t.dropWhile Char.isDigit)

/-- The whole part of a number, which has no zero in front of other digits. -/
def whole? : Reader Text
  | '0' :: t => some (['0'], t)
  | t => digits? t

/-- The digits behind a point, if there is one. -/
def fraction? : Reader Text
  | '.' :: t => digits? t
  | t => some ([], t)

/-- The power of ten behind a mark, if there is one. -/
def exponent? : Reader Int
  | 'e' :: t | 'E' :: t =>
    (digits? (Numeral.cutSign t).2).map fun (digits, rest) =>
      (Double.signed (Numeral.cutSign t).1 (Numeral.ofDigits digits), rest)
  | t => some (0, t)

/-- A number without a sign. -/
def magnitude? (negative : Bool) : Reader Json := fun t =>
  (whole? t).bind fun (whole, t) =>
    (fraction? t).bind fun (fraction, t) =>
      (exponent? t).map fun (exponent, t) =>
        (number (Double.signed negative (Numeral.ofDigits (whole ++ fraction)))
          (exponent - fraction.length), t)

/-- A number, with a minus sign if it is negative. -/
def number? : Reader Json
  | '-' :: t => magnitude? true t
  | t => magnitude? false t

section

variable {α : Type}

/-- One item or more, with commas between them, up to the closing bracket. The first argument bounds
the number of items. -/
def separated? (item? : Reader α) (close : Char) : Nat → Reader (List α)
  | 0, _ => none
  | n + 1, t =>
    (item? t).bind fun (v, rest) =>
      match skip rest with
      | [] => none
      | c :: rest =>
        if c = close then some ([v], rest)
        else if c = ',' then
          (separated? item? close n rest).map fun (items, rest) => (v :: items, rest)
        else none

/-- The items up to the closing bracket, if there are any. -/
def listed? (item? : Reader α) (close : Char) : Reader (List α) := fun t =>
  match skip t with
  | [] => none
  | c :: rest => if c = close then some ([], rest) else separated? item? close t.length t

end

/-- A member of an object: its key and its value. -/
def member? (value? : Reader Json) : Reader (Text × Json) := fun t =>
  match skip t with
  | '\x22' :: t =>
    (string? t).bind fun (key, rest) =>
      match skip rest with
      | ':' :: rest => (value? rest).map fun (v, rest) => ((key, v), rest)
      | _ => none
  | _ => none

/-- A value, with blanks in front of it. The first argument bounds how deep values are nested. -/
def value? : Nat → Reader Json
  | 0, _ => none
  | n + 1, t =>
    match skip t with
    | '\x22' :: t => (string? t).map fun (s, rest) => (string s, rest)
    | '[' :: t => (listed? (value? n) ']' t).map fun (items, rest) => (array items, rest)
    | '\x7b' :: t =>
      (listed? (member? (value? n)) '\x7d' t).map fun (members, rest) => (object members, rest)
    | 'n' :: 'u' :: 'l' :: 'l' :: t => some (null, t)
    | 't' :: 'r' :: 'u' :: 'e' :: t => some (bool true, t)
    | 'f' :: 'a' :: 'l' :: 's' :: 'e' :: t => some (bool false, t)
    | t => number? t

/-- **The value of a text,** if that is one value and nothing but blanks around it. Each value in
another one takes a character of its own, so the length bounds how deep they are nested. -/
def read? (t : Text) : Option Json :=
  (value? t.length t).bind fun (v, rest) => if skip rest = [] then some v else none

/-! ### What ends and what starts a value -/

/-- A text that is empty or goes on with what may stand behind an item. -/
def Ends (rest : Text) : Prop := ∀ c ∈ rest.head?, c = ',' ∨ c = ']' ∨ c = '\x7d'

/-- A text that starts with neither a blank nor a closing bracket. -/
def Starts (t : Text) : Prop :=
  ∃ c u, t = c :: u ∧ c.isWhitespace = false ∧ c ≠ ']' ∧ c ≠ '\x7d'

theorem ends_nil : Ends [] := fun _ h => by cases h

theorem ends_cons {c : Char} (h : c = ',' ∨ c = ']' ∨ c = '\x7d') (rest : Text) :
    Ends (c :: rest) := by
  rintro d ⟨⟩
  exact h

theorem Ends.noDigitNext {rest : Text} (h : Ends rest) : Numeral.NoDigitNext rest := by
  cases rest with
  | nil => rfl
  | cons c rest => rcases h c rfl with rfl | rfl | rfl <;> rfl

theorem Starts.append {t : Text} (h : Starts t) (rest : Text) : Starts (t ++ rest) := by
  obtain ⟨c, u, rfl, hc⟩ := h
  exact ⟨c, u ++ rest, rfl, hc⟩

theorem skip_cons {c : Char} (h : c.isWhitespace = false) (t : Text) : skip (c :: t) = c :: t := by
  simp [skip, h]

/-! ### Lists -/

/-- The reader reads the text as a value, wherever that ends. -/
def Reads {α : Type} (item? : Reader α) (v : α) (t : Text) : Prop :=
  ∀ rest, Ends rest → item? (t ++ rest) = some (v, rest)

section

variable {α : Type} {item? : Reader α} {form : α → Text} {close : Char}

theorem separated?_intercalate (hclose : close = ']' ∨ close = '\x7d') (v : α) (items : List α)
    (h : ∀ w ∈ v :: items, Reads item? w (form w)) (rest : Text) (n : Nat)
    (hn : ([','].intercalate ((v :: items).map form) ++ close :: rest).length ≤ n) :
    separated? item? close n ([','].intercalate ((v :: items).map form) ++ close :: rest) =
      some (v :: items, rest) := by
  have hblank : close.isWhitespace = false := by rcases hclose with rfl | rfl <;> rfl
  have hcomma : ',' ≠ close := by rcases hclose with rfl | rfl <;> decide
  induction items generalizing v n with
  | nil =>
    obtain _ | n := n
    · simp at hn
    · have hread := h v List.mem_cons_self (close :: rest) (ends_cons (Or.inr hclose) rest)
      simp [separated?, hread, skip_cons hblank]
  | cons w items ih =>
    have hmore := ih w fun x hx => h x (List.mem_cons_of_mem v hx)
    have htext : [','].intercalate ((v :: w :: items).map form) ++ close :: rest =
        form v ++ ',' :: ([','].intercalate ((w :: items).map form) ++ close :: rest) := by
      simp [List.intercalate_cons_cons]
    rw [htext] at hn ⊢
    have hread := h v List.mem_cons_self _ (ends_cons (Or.inl rfl)
      ([','].intercalate ((w :: items).map form) ++ close :: rest))
    obtain _ | n := n
    · simp at hn
    · rw [List.length_append, List.length_cons] at hn
      have hskip : ∀ t, skip (',' :: t) = ',' :: t := skip_cons rfl
      simp only [separated?, hread, Option.bind_some, hskip, if_neg hcomma, if_pos,
        hmore n (by omega), Option.map_some]

/-- **Items with commas between them are read back** if each of them is. -/
theorem listed?_intercalate (hclose : close = ']' ∨ close = '\x7d') (items : List α)
    (h : ∀ w ∈ items, Reads item? w (form w)) (hstart : ∀ w ∈ items, Starts (form w))
    (rest : Text) :
    listed? item? close ([','].intercalate (items.map form) ++ close :: rest) =
      some (items, rest) := by
  cases items with
  | nil =>
    have hblank : close.isWhitespace = false := by rcases hclose with rfl | rfl <;> rfl
    simp [listed?, skip_cons hblank]
  | cons v items =>
    have hall := separated?_intercalate hclose v items h rest _ (Nat.le_refl _)
    obtain ⟨c, u, htext, hblank, hbracket, hbrace⟩ :
        Starts ([','].intercalate ((v :: items).map form) ++ close :: rest) := by
      have hjoined := Text.intercalate_append_cons ',' [] (form v) (items.map form)
      rw [List.nil_append, List.flatMap_nil, List.nil_append] at hjoined
      rw [List.map_cons, hjoined, List.append_assoc]
      exact (hstart v List.mem_cons_self).append _
    have hne : c ≠ close := by
      rcases hclose with rfl | rfl
      · exact hbracket
      · exact hbrace
    rw [htext] at hall ⊢
    rw [listed?, skip_cons hblank]
    simp only [if_neg hne, hall]

end

/-! ### Strings and members -/

theorem jsonString_append (t rest : Text) :
    t.jsonString ++ rest = '\x22' :: (t.flatMap Text.jsonChar ++ '\x22' :: rest) := by
  simp [Text.jsonString]

/-- **A string is read back.** -/
theorem string?_append (t rest : Text) :
    string? (t.flatMap Text.jsonChar ++ '\x22' :: rest) = some (t, rest) :=
  Text.delimited?_flatMap Text.stands_jsonChar t rest

theorem starts_jsonString (t : Text) : Starts t.jsonString :=
  ⟨'\x22', _, rfl, rfl, by decide, by decide⟩

theorem reads_member {value? : Reader Json} {m : Text × Json}
    (h : Reads value? m.2 m.2.compact) : Reads (member? value?) m (compactMember m) := by
  intro rest hends
  have hvalue := h rest hends
  rw [compactMember, List.append_assoc, jsonString_append, List.cons_append, member?,
    skip_cons (by rfl)]
  simp only [string?_append, Option.bind_some]
  rw [skip_cons (by rfl)]
  simp only [hvalue, Option.map_some]

/-! ### Numbers -/

section

variable {rest : Text}

theorem digits?_append {digits : Text} (hd : Numeral.AllDigits digits) (hne : digits ≠ [])
    (hr : Numeral.NoDigitNext rest) : digits? (digits ++ rest) = some (digits, rest) := by
  rw [digits?, Numeral.takeWhile_digits hd hr, Numeral.dropWhile_digits hd hr, if_neg hne]

theorem digits?_ofNat (n : Nat) (hr : Numeral.NoDigitNext rest) :
    digits? (Text.ofNat n ++ rest) = some (Text.ofNat n, rest) :=
  digits?_append (Numeral.allDigits_ofNat n) (Numeral.ofNat_ne_nil n) hr

/-- A number has no zero in front, but for zero itself. -/
theorem head?_ofNat_ne_zero {n : Nat} (h : n ≠ 0) : (Text.ofNat n).head? ≠ some '0' := by
  have hdigit : ∀ d < 10, d ≠ 0 → Nat.digitChar d ≠ '0' := by decide
  unfold Text.ofNat
  induction n using Nat.base_induction 10 (by decide) with
  | single m hm =>
    rw [Nat.toDigits_of_lt_base hm]
    exact fun hzero => hdigit m hm h (Option.some.inj hzero)
  | digit m k hk hm ih =>
    rw [← Nat.toDigits_append_toDigits (by decide) hm hk,
      List.head?_append_of_ne_nil _ Nat.toDigits_ne_nil]
    exact ih hm.ne'

theorem whole?_ofNat (n : Nat) (hr : Numeral.NoDigitNext rest) :
    whole? (Text.ofNat n ++ rest) = some (Text.ofNat n, rest) := by
  by_cases hn : n = 0
  · subst hn
    rfl
  · have hzero := head?_ofNat_ne_zero hn
    have hdigits := digits?_ofNat n hr
    rw [← List.head?_append_of_ne_nil _ (Numeral.ofNat_ne_nil n)] at hzero
    unfold whole?
    split
    · next heq =>
      rw [heq] at hzero
      exact absurd rfl hzero
    · exact hdigits

theorem signed_natAbs (n : Int) : Double.signed (decide (n < 0)) n.natAbs = n := by
  rw [Double.signed]
  split
  · next h =>
    have := of_decide_eq_true h
    omega
  · next h =>
    have := of_decide_eq_false (Bool.not_eq_true _ ▸ h)
    omega

theorem exponent?_integer (n : Int) (hr : Numeral.NoDigitNext rest) :
    exponent? ('e' :: (integer n ++ rest)) = some (n, rest) := by
  have hsign : Numeral.IsSign (if n < 0 then ['-'] else []) := by
    split
    · exact Or.inr (Or.inr rfl)
    · exact Or.inl rfl
  have hcut := Numeral.cutSign_append hsign (Numeral.head?_of_allDigits
    (Numeral.allDigits_ofNat n.natAbs) (Numeral.ofNat_ne_nil n.natAbs) rest)
  have hnegative : decide ((if n < 0 then ['-'] else []) = ['-']) = decide (n < 0) := by
    by_cases hn : n < 0 <;> simp [hn]
  rw [exponent?, integer, List.append_assoc, hcut, hnegative, digits?_ofNat _ hr, Option.map_some]
  simp only [Numeral.ofDigits_eq, Numeral.ofDigitChars_ofNat, signed_natAbs]

/-- A number without a sign is read back. -/
theorem magnitude?_append (negative : Bool) (m : Nat) (exponent : Int) (hends : Ends rest) :
    magnitude? negative (Text.ofNat m ++
        ((if exponent = 0 then [] else 'e' :: integer exponent) ++ rest)) =
      some (number (Double.signed negative m) exponent, rest) := by
  by_cases hexponent : exponent = 0
  · have hfraction : fraction? rest = some ([], rest) := by
      unfold fraction?
      split
      · rcases hends '.' rfl with h | h | h <;> cases h
      · rfl
    have hpower : exponent? rest = some (0, rest) := by
      unfold exponent?
      split
      · rcases hends 'e' rfl with h | h | h <;> cases h
      · rcases hends 'E' rfl with h | h | h <;> cases h
      · rfl
    simp [magnitude?, hexponent, whole?_ofNat m hends.noDigitNext, hfraction, hpower,
      Numeral.ofDigits_eq, Numeral.ofDigitChars_ofNat]
  · have hnext : Numeral.NoDigitNext ('e' :: (integer exponent ++ rest)) := rfl
    have hfraction : fraction? ('e' :: (integer exponent ++ rest)) =
        some ([], 'e' :: (integer exponent ++ rest)) := rfl
    simp [magnitude?, hexponent, whole?_ofNat m hnext, hfraction,
      exponent?_integer exponent hends.noDigitNext, Numeral.ofDigits_eq,
      Numeral.ofDigitChars_ofNat]

end

/-- A number starts with a minus sign or a digit. -/
theorem exists_first_integer (n : Int) : ∃ c t, integer n = c :: t ∧ (c = '-' ∨ c.isDigit) := by
  by_cases hn : n < 0
  · exact ⟨'-', Text.ofNat n.natAbs, by rw [integer, if_pos hn]; rfl, Or.inl rfl⟩
  · obtain ⟨d, t, hdigit, hdt⟩ := Numeral.exists_ofNat_eq_cons n.natAbs
    exact ⟨d, t, by rw [integer, if_neg hn, List.nil_append, hdt], Or.inr hdigit⟩

/-- **A number is read back.** -/
theorem reads_number (mantissa exponent : Int) :
    Reads number? (number mantissa exponent) (number mantissa exponent).compact := by
  intro rest hends
  have hread := magnitude?_append (decide (mantissa < 0)) mantissa.natAbs exponent hends
  rw [signed_natAbs] at hread
  rw [compact_number, integer, List.append_assoc, List.append_assoc]
  by_cases hm : mantissa < 0
  · rw [if_pos hm]
    rw [decide_eq_true hm] at hread
    exact hread
  · rw [if_neg hm, List.nil_append]
    rw [decide_eq_false hm] at hread
    have hminus := (Numeral.head?_of_allDigits (Numeral.allDigits_ofNat mantissa.natAbs)
      (Numeral.ofNat_ne_nil _)
      ((if exponent = 0 then [] else 'e' :: integer exponent) ++ rest)).1
    unfold number?
    split
    · next heq =>
      rw [heq] at hminus
      exact absurd rfl hminus
    · exact hread

/-! ### Values -/

theorem isWhitespace_of_numeric {c : Char} (h : c = '-' ∨ c.isDigit) : c.isWhitespace = false := by
  rcases h with rfl | h
  · rfl
  · exact isWhitespace_of_isAlphanum (by simp [Char.isAlphanum, h])

theorem value?_of_numeric {c : Char} (h : c = '-' ∨ c.isDigit) (n : Nat) (t : Text) :
    value? (n + 1) (c :: t) = number? (c :: t) := by
  rw [value?, skip_cons (isWhitespace_of_numeric h)]
  split
  iterate 6
    next heq =>
      obtain ⟨rfl, -⟩ := List.cons.inj heq
      exact absurd h (by decide)
  · rfl

theorem starts_compact (v : Json) : Starts v.compact := by
  cases v with
  | null => exact ⟨'n', _, rfl, rfl, by decide, by decide⟩
  | bool b =>
    cases b
    · exact ⟨'f', _, rfl, rfl, by decide, by decide⟩
    · exact ⟨'t', _, rfl, rfl, by decide, by decide⟩
  | number mantissa exponent =>
    obtain ⟨c, t, hct, hc⟩ := exists_first_integer mantissa
    refine Starts.append ⟨c, t, hct, isWhitespace_of_numeric hc, ?_, ?_⟩ _
    · rintro rfl
      exact absurd hc (by decide)
    · rintro rfl
      exact absurd hc (by decide)
  | string t => exact starts_jsonString t
  | array items => exact ⟨'[', _, rfl, rfl, by decide, by decide⟩
  | object members => exact ⟨'\x7b', _, rfl, rfl, by decide, by decide⟩

theorem length_le_intercalate {w : Text} {ws : List Text} (h : w ∈ ws) :
    w.length ≤ ([','].intercalate ws).length := by
  obtain ⟨before, after, rfl⟩ := List.append_of_mem h
  rw [Text.intercalate_append_cons, List.length_append, List.length_append]
  omega

/-- **A written value is read,** at any depth that its text is long enough for. -/
theorem reads_compact (v : Json) : ∀ n, v.compact.length ≤ n → Reads (value? n) v v.compact := by
  induction v with
  | null =>
    rintro (_ | n) hn rest -
    · cases hn
    · rfl
  | bool b =>
    rintro (_ | n) hn rest -
    · cases b <;> cases hn
    · cases b <;> rfl
  | number mantissa exponent =>
    rintro n hn rest hends
    obtain ⟨c, t, hct, hc⟩ := exists_first_integer mantissa
    have hread := reads_number mantissa exponent rest hends
    rw [compact_number, hct] at hn hread ⊢
    obtain _ | n := n
    · cases hn
    · rw [← hread]
      exact value?_of_numeric hc n _
  | string t =>
    rintro (_ | n) hn rest -
    · cases hn
    · rw [compact_string, jsonString_append, value?, skip_cons (by rfl)]
      simp only [string?_append, Option.map_some]
  | array items ih =>
    rintro (_ | n) hn rest -
    · cases hn
    · rw [compact_array] at hn ⊢
      have hitems : ∀ w ∈ items, Reads (value? n) w w.compact := by
        intro w hw
        have hle := length_le_intercalate (List.mem_map_of_mem (f := compact) hw)
        refine ih w hw n ?_
        simp only [List.length_cons, List.length_append] at hn
        omega
      have hlisted := listed?_intercalate (Or.inl rfl) items hitems
        (fun w _ => starts_compact w) rest
      rw [List.cons_append, List.append_assoc, value?, skip_cons (by rfl)]
      simp only [List.singleton_append, hlisted, Option.map_some]
  | object members ih =>
    rintro (_ | n) hn rest -
    · cases hn
    · rw [compact_object] at hn ⊢
      have hmembers : ∀ m ∈ members, Reads (member? (value? n)) m (compactMember m) := by
        intro m hm
        have hle := length_le_intercalate (List.mem_map_of_mem (f := compactMember) hm)
        refine reads_member (ih m hm n ?_)
        rw [compactMember, List.length_append, List.length_cons] at hle
        simp only [List.length_cons, List.length_append] at hn
        omega
      have hlisted := listed?_intercalate (Or.inr rfl) members hmembers
        (fun m _ => (starts_jsonString m.1).append _) rest
      rw [List.cons_append, List.append_assoc, value?, skip_cons (by rfl)]
      simp only [List.singleton_append, hlisted, Option.map_some]

/-- **A written value is read back.** -/
theorem read?_compact (v : Json) : read? v.compact = some v := by
  have hread := reads_compact v _ (Nat.le_refl _) [] ends_nil
  rw [List.append_nil] at hread
  have hnone : skip [] = [] := rfl
  simp only [read?, hread, Option.bind_some, hnone, if_pos]

/-- Texts are read with other blanks and escape sequences as well. -/
example : read? "\x7b \"\\ud83d\\ude00\\/\" : [-2.50e+3, []] \x7d\n".toList =
    some (object [(['😀', '/'], array [number (-250) 1, array []])]) := by cbv

/-- A comma too many makes no text. -/
example : read? "[1,]".toList = none := by rfl

/-! ### Controls -/

/-- What holds of all characters of some texts holds of the texts in brackets, with commas between
them. -/
theorem forall_mem_bracketed {P : Char → Prop} {first last : Char} {ws : List Text}
    (hfirst : P first) (hcomma : P ',') (hlast : P last) (h : ∀ w ∈ ws, ∀ c ∈ w, P c) :
    ∀ c ∈ first :: ([','].intercalate ws ++ [last]), P c := by
  have hjoined : ∀ c ∈ [','].intercalate ws, P c := by
    intro c hc
    cases ws with
    | nil => cases hc
    | cons w ws =>
      have heq := Text.intercalate_append_cons ',' [] w ws
      rw [List.nil_append, List.flatMap_nil, List.nil_append] at heq
      rw [heq, List.mem_append, List.mem_flatMap] at hc
      rcases hc with hc | ⟨x, hx, hc⟩
      · exact h w List.mem_cons_self c hc
      · rcases List.mem_cons.mp hc with rfl | hc
        · exact hcomma
        · exact h x (List.mem_cons_of_mem w hx) c hc
  intro c hc
  rw [List.mem_cons, List.mem_append, List.mem_singleton] at hc
  rcases hc with rfl | hc | rfl
  · exact hfirst
  · exact hjoined c hc
  · exact hlast

theorem le_toNat_of_mem_integer {n : Int} {c : Char} (h : c ∈ integer n) : 0x20 ≤ c.toNat := by
  rcases List.mem_append.mp h with h | h
  · split at h
    · rw [List.mem_singleton.mp h]
      decide
    · cases h
  · have hzero : '0'.toNat = 0x30 := rfl
    have hdigit := (Char.isDigit_iff_toNat.mp (Numeral.allDigits_ofNat _ c h)).1
    omega

/-- **A written value has no controls,** so it is one line. -/
theorem le_toNat_of_mem_compact (v : Json) : ∀ c ∈ v.compact, 0x20 ≤ c.toNat := by
  induction v with
  | null => exact Text.forall_of_all (by decide)
  | bool b =>
    cases b
    · exact Text.forall_of_all (by decide)
    · exact Text.forall_of_all (by decide)
  | number mantissa exponent =>
    intro c hc
    rw [compact_number] at hc
    rcases List.mem_append.mp hc with hc | hc
    · exact le_toNat_of_mem_integer hc
    split at hc
    · cases hc
    · rcases List.mem_cons.mp hc with rfl | hc
      · decide
      · exact le_toNat_of_mem_integer hc
  | string t => exact fun c => Text.le_toNat_of_mem_jsonString
  | array items ih =>
    rw [compact_array]
    refine forall_mem_bracketed (by decide) (by decide) (by decide) fun w hw c hc => ?_
    obtain ⟨v, hv, rfl⟩ := List.mem_map.mp hw
    exact ih v hv c hc
  | object members ih =>
    rw [compact_object]
    refine forall_mem_bracketed (by decide) (by decide) (by decide) fun w hw c hc => ?_
    obtain ⟨m, hm, rfl⟩ := List.mem_map.mp hw
    rw [compactMember, List.mem_append, List.mem_cons] at hc
    rcases hc with hc | rfl | hc
    · exact Text.le_toNat_of_mem_jsonString hc
    · decide
    · exact ih m hm c hc

end Json

end Smalltalk
