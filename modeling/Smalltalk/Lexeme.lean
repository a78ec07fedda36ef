import Smalltalk.Double.Notation
import Smalltalk.Numeral
import Smalltalk.Token

/-! # Reading one token

The token at the front of a text is settled by its first character and at most one character more
before anything is consumed; only numeric literals are consumed first and judged afterwards. A
`Reading` says what came of it and which characters were consumed, `Reading.ofText` reads.

Offsets in errors count from the front of the text that was read.

* `Reading.lexeme_isPrefix`: what is consumed is a front part of the text.
* `Reading.lexeme_ne_nil`: a token is never made of nothing. -/

namespace Smalltalk

/-- What came of reading the front of a text, and the characters consumed. -/
structure Reading where
  outcome : Except ScanError Token
  lexeme : Text

namespace Reading

/-- A token made of `lexeme`. -/
def token (kind : TokenKind) (value lexeme : Text) : Reading := ⟨.ok ⟨kind, value⟩, lexeme⟩

/-- A special token, spelled as it is. -/
def special (spelling : Text) : Reading := token .special spelling spelling

/-- A fault at the first character, with nothing consumed. -/
def refuse (fault : ScanFault) : Reading := ⟨.error ⟨fault, 0⟩, []⟩

/-! ### Numeric literals -/

/-- What has been seen of a numeric literal so far. -/
structure Marks where
  radix : Bool := false
  exponent : Bool := false
  point : Bool := false
  minus : Bool := false

/-- What the next character does to a numeric literal. -/
inductive Step where
  | take (marks : Marks)
  | stop
  | clash (fault : ScanFault)

/-- A literal has one `r` and one `e` at most, and more are faults. It goes on over letters and
digits, over one point before a letter or digit, and over one minus sign on each side of `e`. -/
def Marks.step (m : Marks) (c : Char) (next : Option Char) : Step :=
  if c = 'r' then
    if m.radix then .clash .multipleRadix else .take { m with radix := true }
  else if c = 'e' then
    if m.exponent then .clash .multipleExponent
    else .take { m with exponent := true, minus := false }
  else if c = '.' ∧ next.any Char.isAlphanum then
    if m.point then .stop else .take { m with point := true }
  else if c = '-' then
    if m.minus then .stop else .take { m with minus := true }
  else if c.isAlphanum then .take m
  else .stop

/-- The numeric literal at the front of a text, up to a fault if there is one. -/
def capture (m : Marks) : Text → Text × Option ScanFault
  | [] => ([], none)
  | c :: cs =>
    match m.step c cs.head? with
    | .take m' =>
      let captured := capture m' cs
      (c :: captured.1, captured.2)
    | .stop => ([], none)
    | .clash fault => ([], some fault)

/-- A number, written canonically. -/
def number (t : Text) : Reading :=
  match capture {} t with
  | (literal, some fault) => ⟨.error ⟨fault, literal.byteLength⟩, literal⟩
  | (literal, none) =>
    match Numeral.evaluate literal with
    | .ok value => token .number value.toText literal
    | .error e => ⟨.error e, literal⟩

/-! ### Names, literals and comments -/

/-- A maximal run of blanks. -/
def blanks (t : Text) : Reading :=
  token .whitespace (t.takeWhile Char.isWhitespace) (t.takeWhile Char.isWhitespace)

/-- A name; it is a parameter if a colon follows it. -/
def name (t : Text) : Reading :=
  let name := t.takeWhile Char.isAlphanum
  if (t.dropWhile Char.isAlphanum).head? = some ':' then token .parameter name (name ++ [':'])
  else token .identifier name name

/-- A block argument, from what follows its colon. -/
def blockArgument (t : Text) : Reading :=
  match t.head? with
  | none => refuse .trailingColon
  | some c =>
    if c.isAlpha then
      token .blockArgument (t.takeWhile Char.isAlphanum) (':' :: t.takeWhile Char.isAlphanum)
    else refuse (.unknownCharacter ':')

/-- A character literal, from what follows its `$`. -/
def char (t : Text) : Reading :=
  match t.head? with
  | none => refuse .trailingDollar
  | some c => token .char [c] ['$', c]

/-- The value of a string and the characters consumed, from what follows its opening backquote. Two
backquotes stand for one; a string that is not closed runs to the end. -/
def stringBody : Text → Text × Text
  | [] => ([], [])
  | '\x60' :: '\x60' :: cs =>
    let body := stringBody cs
    ('\x60' :: body.1, '\x60' :: '\x60' :: body.2)
  | c :: cs =>
    if c = '\x60' then ([], [c])
    else
      let body := stringBody cs
      (c :: body.1, c :: body.2)

/-- A string, from what follows its opening backquote. -/
def string (t : Text) : Reading := token .string (stringBody t).1 ('\x60' :: (stringBody t).2)

/-- A comment, from what follows its opening quote; one that is not closed runs to the end. -/
def comment (t : Text) : Reading :=
  let body := t.takeWhile (· ≠ '\x22')
  token .comment body ('\x22' :: body ++ (t.dropWhile (· ≠ '\x22')).take 1)

/-- A symbol up to the next blank, or the opening of a literal array, from what follows `#`. -/
def hash (t : Text) : Reading :=
  match t.head? with
  | none => refuse .invalidHash
  | some c =>
    if c.isAlphanum then
      let body := t.takeWhile fun c => !c.isWhitespace
      token .symbol body ('#' :: body)
    else if c = '(' then special ['#', '(']
    else refuse .invalidHash

/-! ### Operators -/

/-- One character, or two if the second is one of `seconds`. -/
def oneOrTwo (first : Char) (seconds : Text) (t : Text) : Reading :=
  match t.head? with
  | none => special [first]
  | some c => if c ∈ seconds then special [first, c] else special [first]

/-- Two characters, the second one of `seconds`; anything else is a fault. -/
def two (first : Char) (seconds : Text) (fault : ScanFault) (t : Text) : Reading :=
  match t.head? with
  | none => refuse fault
  | some c => if c ∈ seconds then special [first, c] else refuse fault

/-- One or two characters that can not end the text. -/
def notLast (first : Char) (seconds : Text) (fault : ScanFault) (t : Text) : Reading :=
  if t = [] then refuse fault else oneOrTwo first seconds t

/-- A negative number if a digit follows the minus sign, else the minus sign itself. -/
def minus (t : Text) : Reading :=
  if t.head?.any Char.isDigit then number ('-' :: t) else special ['-']

/-! ### All rules -/

/-- **The token at the front of the text `c :: t`.** -/
def ofText (c : Char) (t : Text) : Reading :=
  if c.isWhitespace then blanks (c :: t)
  else if c.isAlpha then name (c :: t)
  else if c.isDigit then number (c :: t)
  else if CharClass.isSingleSpecial c then special [c]
  else match c with
    | '=' => oneOrTwo c ['='] t
    | '/' => oneOrTwo c ['/'] t
    | '\\' => two c ['\\'] .trailingBackslash t
    | '~' => two c ['~', '='] .invalidTilde t
    | '>' => notLast c ['='] .trailingGreater t
    | '<' => notLast c ['-', '='] .trailingLess t
    | ':' => blockArgument t
    | '$' => char t
    | '#' => hash t
    | '-' => minus t
    | '\x22' => comment t
    | '\x60' => string t
    | c => refuse (.unknownCharacter c)

/-! ### What is consumed -/

theorem capture_isPrefix (m : Marks) (t : Text) : (capture m t).1 <+: t := by
  induction t generalizing m with
  | nil => exact List.nil_prefix
  | cons c cs ih =>
    unfold capture
    split
    · exact List.prefix_cons_iff.mpr (Or.inr ⟨_, rfl, ih _⟩)
    · exact List.nil_prefix
    · exact List.nil_prefix

theorem number_isPrefix (t : Text) : (number t).lexeme <+: t := by
  have h := capture_isPrefix {} t
  unfold number
  split
  · simp_all
  · split <;> simp_all [token]

theorem stringBody_isPrefix (t : Text) : (stringBody t).2 <+: t := by
  fun_induction stringBody t with
  | case1 => exact List.nil_prefix
  | case2 cs body ih => simpa [List.prefix_cons_inj] using ih
  | case3 cs => exact ⟨cs, rfl⟩
  | case4 c cs _ _ body ih => simpa [List.prefix_cons_inj] using ih

theorem comment_isPrefix (t : Text) : (comment t).lexeme <+: '\x22' :: t := by
  have h := List.take_prefix 1 (t.dropWhile (· ≠ '\x22'))
  have := (List.prefix_append_right_inj (t.takeWhile (· ≠ '\x22'))).mpr h
  rw [List.takeWhile_append_dropWhile] at this
  exact (List.prefix_cons_inj _).mpr this

theorem name_isPrefix (t : Text) : (name t).lexeme <+: t := by
  unfold name
  dsimp only
  split
  · rename_i h
    obtain ⟨r, hr⟩ := List.head?_eq_some_iff.mp h
    exact ⟨r, by
      conv => rhs; rw [← List.takeWhile_append_dropWhile (p := Char.isAlphanum) (l := t), hr]
      simp [token]⟩
  · exact List.takeWhile_prefix _

theorem oneOrTwo_isPrefix (c : Char) (ds t : Text) : (oneOrTwo c ds t).lexeme <+: c :: t := by
  cases t with
  | nil => exact List.prefix_refl _
  | cons d t =>
    simp only [oneOrTwo, List.head?_cons]
    split <;> simp [special, token]

theorem two_isPrefix (c : Char) (ds : Text) (f : ScanFault) (t : Text) :
    (two c ds f t).lexeme <+: c :: t := by
  cases t with
  | nil => exact List.nil_prefix
  | cons d t =>
    simp only [two, List.head?_cons]
    split <;> simp [special, token, refuse]

/-- **What is consumed is a front part of the text.** -/
theorem lexeme_isPrefix (c : Char) (t : Text) : (ofText c t).lexeme <+: c :: t := by
  unfold ofText
  split
  · exact List.takeWhile_prefix _
  split
  · exact name_isPrefix _
  split
  · exact number_isPrefix _
  split
  · simp [special, token]
  split
  · exact oneOrTwo_isPrefix ..
  · exact oneOrTwo_isPrefix ..
  · exact two_isPrefix ..
  · exact two_isPrefix ..
  · unfold notLast; split
    · exact List.nil_prefix
    · exact oneOrTwo_isPrefix ..
  · unfold notLast; split
    · exact List.nil_prefix
    · exact oneOrTwo_isPrefix ..
  · unfold blockArgument; split
    · exact List.nil_prefix
    · split
      · exact (List.prefix_cons_inj _).mpr (List.takeWhile_prefix _)
      · exact List.nil_prefix
  · cases t <;> simp [char, refuse, token]
  · unfold hash; split
    · exact List.nil_prefix
    · split
      · exact (List.prefix_cons_inj _).mpr (List.takeWhile_prefix _)
      · split
        · cases t <;> simp_all [special, token]
        · exact List.nil_prefix
  · unfold minus; split
    · exact number_isPrefix _
    · simp [special, token]
  · exact comment_isPrefix t
  · exact (List.prefix_cons_inj _).mpr (stringBody_isPrefix t)
  · exact List.nil_prefix

/-- Something is consumed or there is no token. -/
def Grounded (r : Reading) : Prop := r.lexeme ≠ [] ∨ ∃ e, r.outcome = .error e

theorem grounded_refuse (f : ScanFault) : (refuse f).Grounded := Or.inr ⟨_, rfl⟩

theorem grounded_token (k : TokenKind) (v : Text) (c : Char) (l : Text) :
    (token k v (c :: l)).Grounded := Or.inl (by simp [token])

theorem grounded_oneOrTwo (c : Char) (ds t : Text) : (oneOrTwo c ds t).Grounded := by
  unfold oneOrTwo
  split
  · exact grounded_token ..
  · split <;> exact grounded_token ..

theorem grounded_two (c : Char) (ds : Text) (f : ScanFault) (t : Text) :
    (two c ds f t).Grounded := by
  unfold two
  split
  · exact grounded_refuse f
  · split
    · exact grounded_token ..
    · exact grounded_refuse f

theorem grounded_notLast (c : Char) (ds : Text) (f : ScanFault) (t : Text) :
    (notLast c ds f t).Grounded := by
  unfold notLast
  split
  · exact grounded_refuse f
  · exact grounded_oneOrTwo ..

/-- The empty literal has no value. -/
theorem evaluate_nil : Numeral.evaluate [] = .error ⟨.malformedNumber [], 0⟩ := rfl

theorem grounded_number (t : Text) : (number t).Grounded := by
  unfold number
  split
  · exact Or.inr ⟨_, rfl⟩
  · split
    · rename_i he
      refine Or.inl fun h => ?_
      simp only [token] at h
      subst h
      simp [evaluate_nil] at he
    · exact Or.inr ⟨_, rfl⟩

theorem grounded_ofText (c : Char) (t : Text) : (ofText c t).Grounded := by
  unfold ofText
  split
  · rename_i hb
    simp only [blanks, List.takeWhile_cons, hb, if_true]
    exact grounded_token ..
  split
  · rename_i ha
    have ha' : c.isAlphanum := by simp [Char.isAlphanum, ha]
    simp only [name, List.takeWhile_cons, ha', if_true]
    split <;> exact grounded_token ..
  split
  · exact grounded_number _
  split
  · exact grounded_token ..
  split
  · exact grounded_oneOrTwo ..
  · exact grounded_oneOrTwo ..
  · exact grounded_two ..
  · exact grounded_two ..
  · exact grounded_notLast ..
  · exact grounded_notLast ..
  · unfold blockArgument; split
    · exact grounded_refuse _
    · split
      · exact grounded_token ..
      · exact grounded_refuse _
  · unfold char; split
    · exact grounded_refuse _
    · exact grounded_token ..
  · unfold hash; split
    · exact grounded_refuse _
    · split
      · exact grounded_token ..
      · split
        · exact grounded_token ..
        · exact grounded_refuse _
  · unfold minus; split
    · exact grounded_number _
    · exact grounded_token ..
  · exact grounded_token ..
  · exact grounded_token ..
  · exact grounded_refuse _

/-- **A token is never made of nothing.** -/
theorem lexeme_ne_nil {c : Char} {t : Text} {k : Token} (h : (ofText c t).outcome = .ok k) :
    (ofText c t).lexeme ≠ [] := by
  rcases grounded_ofText c t with hl | ⟨e, he⟩
  · exact hl
  · simp [he] at h

end Reading

end Smalltalk
