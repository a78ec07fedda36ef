import Smalltalk.Proofs.Calls
import Smalltalk.Proofs.RoundTrip
import Smalltalk.Proofs.Tiling

/-! # A space separates two texts

Every rule that looks ahead treats a space like the end of the text, or refuses the end of the text.
So if `a` scans and its last string or comment is closed, then nothing changes in `a` when a space
and another text `b` are put behind it, and the scan of `b` starts afresh there.

* `Reading.ofText_append_space`: a token is read in the same way in front of a space.
* `Text.Delimited`: the strings and comments of a text have their closing delimiters.
* `scan_separated`: the scan of `a` and `b` with a space between them. -/

namespace Smalltalk

/-! ### Rules in front of a space -/

theorem takeWhile_append_space {p : Char → Bool} (hp : p ' ' = false) (t b : Text) :
    (t ++ ' ' :: b).takeWhile p = t.takeWhile p := by
  induction t with
  | nil => exact List.takeWhile_cons_of_neg (by simp [hp])
  | cons c t ih =>
    rw [List.cons_append, List.takeWhile_cons, List.takeWhile_cons, ih]

theorem dropWhile_append_space {p : Char → Bool} (hp : p ' ' = false) (t b : Text) :
    (t ++ ' ' :: b).dropWhile p = t.dropWhile p ++ ' ' :: b := by
  induction t with
  | nil => exact List.dropWhile_cons_of_neg (by simp [hp])
  | cons c t ih =>
    rw [List.cons_append, List.dropWhile_cons, List.dropWhile_cons, ih]
    split <;> rfl

namespace Reading

theorem name_append_space (t b : Text) : name (t ++ ' ' :: b) = name t := by
  have htake := takeWhile_append_space (p := Char.isAlphanum) (by decide) t b
  have hdrop := dropWhile_append_space (p := Char.isAlphanum) (by decide) t b
  have hhead : (t.dropWhile Char.isAlphanum ++ ' ' :: b).head? = some ':' ↔
      (t.dropWhile Char.isAlphanum).head? = some ':' := by
    rcases t.dropWhile Char.isAlphanum with _ | ⟨c, r⟩
    · simp
    · rfl
  unfold name
  simp only [htake, hdrop, hhead]

theorem capture_append_space (m : Marks) (t b : Text) :
    capture m (t ++ ' ' :: b) = capture m t := by
  induction t generalizing m with
  | nil => rfl
  | cons c t ih =>
    -- the step looks at the next character only to see whether it is a letter or digit
    have hstep : m.step c (t ++ ' ' :: b).head? = m.step c t.head? := by
      rcases t with _ | ⟨d, t⟩
      · unfold Marks.step
        simp only [List.nil_append, List.head?_cons, List.head?_nil, Option.any_some,
          Option.any_none]
        rfl
      · rfl
    rw [List.cons_append, capture, capture, hstep]
    split
    · rw [ih]
    · rfl
    · rfl

theorem number_append_space (t b : Text) : number (t ++ ' ' :: b) = number t := by
  unfold number
  rw [capture_append_space]

theorem oneOrTwo_append_space {seconds : Text} (h : ' ' ∉ seconds) (c : Char) (t b : Text) :
    oneOrTwo c seconds (t ++ ' ' :: b) = oneOrTwo c seconds t := by
  rcases t with _ | ⟨d, t⟩
  · simp [oneOrTwo, h]
  · rfl

theorem two_append_space {seconds : Text} (h : ' ' ∉ seconds) (c : Char) (fault : ScanFault)
    (t b : Text) : two c seconds fault (t ++ ' ' :: b) = two c seconds fault t := by
  rcases t with _ | ⟨d, t⟩
  · simp [two, h]
  · rfl

theorem notLast_append_space {c : Char} {seconds t : Text} {fault : ScanFault} {k : Token}
    (h : ' ' ∉ seconds) (ho : (notLast c seconds fault t).outcome = .ok k) (b : Text) :
    notLast c seconds fault (t ++ ' ' :: b) = notLast c seconds fault t := by
  unfold notLast at ho ⊢
  split at ho
  · cases ho
  · next ht =>
    rw [if_neg ht, if_neg (by simp), oneOrTwo_append_space h]

theorem blockArgument_append_space {t : Text} {k : Token} (ho : (blockArgument t).outcome = .ok k)
    (b : Text) : blockArgument (t ++ ' ' :: b) = blockArgument t := by
  rcases t with _ | ⟨d, t⟩
  · cases ho
  · unfold blockArgument
    rw [takeWhile_append_space (by decide)]
    rfl

theorem char_append_space {t : Text} {k : Token} (ho : (char t).outcome = .ok k) (b : Text) :
    char (t ++ ' ' :: b) = char t := by
  rcases t with _ | ⟨d, t⟩
  · cases ho
  · rfl

theorem hash_append_space (t b : Text) : hash (t ++ ' ' :: b) = hash t := by
  rcases t with _ | ⟨d, t⟩
  · rfl
  · unfold hash
    rw [takeWhile_append_space (by decide)]
    rfl

theorem minus_append_space (t b : Text) : minus (t ++ ' ' :: b) = minus t := by
  have hnumber := number_append_space ('-' :: t) b
  rcases t with _ | ⟨d, t⟩
  · rfl
  · unfold minus
    rw [← List.cons_append, hnumber]
    rfl

/-! ### Closed strings and comments in front of a space -/

theorem comment_append_space {t : Text} {k : Token} (ho : (comment t).outcome = .ok k)
    (hk : (comment t).lexeme = k.source) (b : Text) : comment (t ++ ' ' :: b) = comment t := by
  have hbody : '\x22' ∉ t.takeWhile (· ≠ '\x22') := shaped_comment t _ rfl
  have hpre := comment_isPrefix t
  rw [hk, ← Except.ok.inj ho] at hpre
  obtain ⟨r, hr⟩ := hpre
  have ht : t = t.takeWhile (· ≠ '\x22') ++ '\x22' :: r := by
    have := (List.cons.inj hr).2
    simpa using this.symm
  rw [ht, List.append_assoc, List.cons_append, comment_of_body hbody, comment_of_body hbody]

theorem stringBody_append_space {t : Text}
    (h : (stringBody t).2 = (stringBody t).1.doubled ++ ['\x60']) (b : Text) :
    stringBody (t ++ ' ' :: b) = stringBody t := by
  fun_induction stringBody t with
  | case1 => simp at h
  | case2 cs body ih =>
    have hbody : body.2 = body.1.doubled ++ ['\x60'] := by
      simpa [Text.doubled_cons_backquote] using h
    simp [stringBody, ih hbody, body]
  | case3 cs hcs =>
    have hhead : (cs ++ ' ' :: b).head? ≠ some '\x60' := by
      rcases cs with _ | ⟨d, cs⟩
      · simp
      · simpa using fun hd : d = '\x60' => hcs cs rfl (by rw [hd])
    exact stringBody_close hhead
  | case4 c cs hcs hc body ih =>
    have hbody : body.2 = body.1.doubled ++ ['\x60'] := by
      simpa [Text.doubled_cons hc] using h
    rw [List.cons_append, stringBody, if_neg hc, ih hbody]
    · intro cs' hcons
      exact absurd hcons hc

theorem string_append_space {t : Text} {k : Token} (ho : (string t).outcome = .ok k)
    (hk : (string t).lexeme = k.source) (b : Text) : string (t ++ ' ' :: b) = string t := by
  have hclosed : (stringBody t).2 = (stringBody t).1.doubled ++ ['\x60'] := by
    rw [← Except.ok.inj ho] at hk
    exact (List.cons.inj hk).2
  unfold string
  rw [stringBody_append_space hclosed]

/-- **A token is read in the same way in front of a space,** if it is no run of blanks and, where it
is a string or a comment, if it is closed. -/
theorem ofText_append_space {c : Char} {t : Text} {k : Token} (hc : c.isWhitespace = false)
    (ho : (ofText c t).outcome = .ok k)
    (hk : k.kind = .string ∨ k.kind = .comment → (ofText c t).lexeme = k.source) (b : Text) :
    ofText c (t ++ ' ' :: b) = ofText c t := by
  unfold ofText at ho hk ⊢
  rw [hc] at ho hk ⊢
  simp only [Bool.false_eq_true, if_false] at ho hk ⊢
  by_cases ha : c.isAlpha
  · rw [if_pos ha, if_pos ha, ← List.cons_append, name_append_space]
  rw [if_neg ha] at ho hk ⊢
  rw [if_neg ha]
  by_cases hd : c.isDigit
  · rw [if_pos hd, if_pos hd, ← List.cons_append, number_append_space]
  rw [if_neg hd] at ho hk ⊢
  rw [if_neg hd]
  by_cases hs : CharClass.isSingleSpecial c
  · rw [if_pos hs, if_pos hs]
  rw [if_neg hs] at ho hk ⊢
  rw [if_neg hs]
  split at ho
  · exact oneOrTwo_append_space (by decide) _ _ _
  · exact oneOrTwo_append_space (by decide) _ _ _
  · exact two_append_space (by decide) _ _ _ _
  · exact two_append_space (by decide) _ _ _ _
  · exact notLast_append_space (by decide) ho _
  · exact notLast_append_space (by decide) ho _
  · exact blockArgument_append_space ho _
  · exact char_append_space ho _
  · exact hash_append_space _ _
  · exact minus_append_space _ _
  · exact comment_append_space ho (hk (Or.inr (by rw [← Except.ok.inj ho]))) _
  · exact string_append_space ho (hk (Or.inl (by rw [← Except.ok.inj ho]))) _
  · cases ho

end Reading

/-! ### Runs in front of a space -/

namespace Text

/-- What is read of a text, seen from `n` bytes further to the front where the tokens `ks` stand. -/
def following (ks : List Token) (n : Nat) (r : Except ScanError (List Token)) :
    Except ScanError (List Token) :=
  (r.mapError (·.shift n)).map (ks ++ ·)

theorem following_following (ks ks' : List Token) (m n : Nat) (r : Except ScanError (List Token)) :
    following ks m (following ks' n r) = following (ks ++ ks') (m + n) r := by
  rcases r with e | tokens
  · exact congrArg Except.error (ScanError.shift_shift ..)
  · exact congrArg Except.ok (List.append_assoc ..).symm

theorem readTokens_eq_following {t u lexeme r : Text} {c : Char} {k : Token}
    (h : t.dropBlanks false = c :: u) (hr : Reading.ofText c u = ⟨.ok k, lexeme⟩)
    (hct : c :: u = lexeme ++ r) :
    t.readTokens false = following [k] ((t.skippedBlanks false).byteLength + lexeme.byteLength)
      (r.readTokens false) := by
  rw [readTokens_of_token h hr hct]
  rcases r.readTokens false with e | tokens <;> rfl

theorem readTokens_blanks {w : Text} (hw : ∀ c ∈ w, c.isWhitespace) (t : Text) :
    (w ++ t).readTokens false = following [] w.byteLength (t.readTokens false) := by
  have hdrop : (w ++ t).dropBlanks false = t.dropBlanks false := List.dropWhile_append_of_pos hw
  have hskip : (w ++ t).skippedBlanks false = w ++ t.skippedBlanks false :=
    List.takeWhile_append_of_pos hw
  rcases hd : t.dropBlanks false with _ | ⟨c, u⟩
  · rw [readTokens_of_nil hd, readTokens_of_nil (hdrop.trans hd)]
    rfl
  rcases ho : (Reading.ofText c u).outcome with e | k
  · rw [readTokens_of_error hd ho, readTokens_of_error (hdrop.trans hd) ho, hskip,
      byteLength_append]
    exact congrArg Except.error (ScanError.shift_shift ..).symm
  · obtain ⟨r, hr⟩ := Reading.lexeme_isPrefix c u
    have hread : Reading.ofText c u = ⟨.ok k, (Reading.ofText c u).lexeme⟩ := by rw [← ho]
    rw [readTokens_eq_following hd hread hr.symm,
      readTokens_eq_following (hdrop.trans hd) hread hr.symm, hskip, byteLength_append,
      following_following, Nat.add_assoc]
    rfl

end Text

namespace Lexer

theorem skipped_isWhitespace {l : Lexer} (hk : l.keepBlanks = false) :
    ∀ c ∈ l.skipped, c.isWhitespace := by
  have hall := List.all_takeWhile (p := Char.isWhitespace) (l := l.cursor.rest)
  rw [skipped, hk]
  exact List.all_eq_true.mp hall

theorem Found.isWhitespace_eq_false {l l' : Lexer} {token : Token} {lexeme t : Text} {c : Char}
    (h : l.Found token lexeme l') (hk : l.keepBlanks = false)
    (hct : lexeme ++ l'.cursor.rest = c :: t) : c.isWhitespace = false := by
  have hdrop := h.dropBlanks.trans hct
  have hhead := List.head?_dropWhile_not Char.isWhitespace l.cursor.rest
  rw [hk] at hdrop
  rw [show l.cursor.rest.dropWhile Char.isWhitespace = c :: t from hdrop] at hhead
  simpa using hhead

/-- One step in front of a space: the token is read, and the rest is read as it would be anyway. -/
theorem Found.readTokens_append_space {l l' : Lexer} {k : Token} {lexeme : Text}
    (h : l.Found k lexeme l') (hk : l.keepBlanks = false)
    (hclosed : k.kind = .string ∨ k.kind = .comment → lexeme = k.source) (b : Text) :
    (l.cursor.rest ++ ' ' :: b).readTokens false =
      Text.following [k] (l.skipped.byteLength + lexeme.byteLength)
        ((l'.cursor.rest ++ ' ' :: b).readTokens false) := by
  obtain ⟨c, t, hct, hread⟩ := h.reading
  have hw := h.isWhitespace_eq_false hk hct
  have hread' : Reading.ofText c (t ++ ' ' :: b) = ⟨.ok k, lexeme⟩ := by
    rw [Reading.ofText_append_space (k := k) hw (by rw [hread]) (by rw [hread]; exact hclosed),
      hread]
  have hsplit : l.cursor.rest ++ ' ' :: b = l.skipped ++ c :: (t ++ ' ' :: b) := by
    rw [h.split, hct, List.append_assoc, List.cons_append]
  have hdrop : (l.cursor.rest ++ ' ' :: b).dropBlanks false = c :: (t ++ ' ' :: b) := by
    rw [hsplit]
    exact dropWhile_append_stop (skipped_isWhitespace hk) hw _
  have hskip : (l.cursor.rest ++ ' ' :: b).skippedBlanks false = l.skipped := by
    rw [hsplit]
    exact takeWhile_append_stop (skipped_isWhitespace hk) hw _
  have hct' : c :: (t ++ ' ' :: b) = lexeme ++ (l'.cursor.rest ++ ' ' :: b) := by
    rw [← List.cons_append, ← hct, List.append_assoc]
  rw [Text.readTokens_eq_following hdrop hread' hct', hskip]

/-- The strings and comments among the tokens have their closing delimiters in the text. -/
def Closed (text : Text) (placed : List PlacedToken) : Prop :=
  ∀ p ∈ placed, p.token.kind = .string ∨ p.token.kind = .comment →
    text.slice? p.start p.stop = some p.token.source

/-- **A run goes on as before if a space and more text are put behind it.** -/
theorem Run.readTokens_append_space {l : Lexer} {placed : List PlacedToken} {stop : Nat}
    (h : l.Run placed stop) (hk : l.keepBlanks = false) (hl : l.cursor.OnBoundary)
    (hc : Closed l.cursor.source placed) (b : Text) :
    (l.cursor.rest ++ ' ' :: b).readTokens false =
      Text.following (placed.map (·.token)) (l.cursor.rest.byteLength + 1)
        (b.readTokens false) := by
  induction h with
  | @done l l' hn =>
    obtain ⟨hend, -⟩ := nextToken_none hn
    have hrest := skipped_append_rest l
    rw [hend, List.append_nil] at hrest
    have hblank : ∀ c ∈ l.cursor.rest ++ [' '], c.isWhitespace := by
      intro c hc
      rcases List.mem_append.mp hc with hc | hc
      · rw [← hrest] at hc
        exact skipped_isWhitespace hk c hc
      · rw [List.mem_singleton.mp hc]
        rfl
    have hread := Text.readTokens_blanks hblank b
    rw [Text.byteLength_append, List.append_assoc] at hread
    exact hread
  | @token l l' k lexeme placed stop hn hf hr ih =>
    have hclosed : k.kind = .string ∨ k.kind = .comment → lexeme = k.source := by
      intro hkind
      have hsource := hc _ List.mem_cons_self hkind
      rw [(hf.slice hl).2] at hsource
      exact Option.some.inj hsource
    have hc' : Closed l'.cursor.source placed := by
      intro p hp
      rw [hf.source]
      exact hc p (List.mem_cons_of_mem _ hp)
    have hlen : l.cursor.rest.byteLength + 1 =
        l.skipped.byteLength + lexeme.byteLength + (l'.cursor.rest.byteLength + 1) := by
      rw [hf.split, Text.byteLength_append, Text.byteLength_append]
      omega
    rw [hf.readTokens_append_space hk hclosed, ih (hf.keepBlanks.trans hk) hf.onBoundary hc',
      Text.following_following, ← hlen]
    rfl

end Lexer

/-! ### Scans -/

/-- The strings and comments of a text have their closing delimiters. -/
def Text.Delimited (t : Text) : Prop :=
  ∀ placed stop, ((Lexer.ofOffset t 0).withBlanks false).placedTokens = .ok (placed, stop) →
    Lexer.Closed t placed

/-- **A space separates two texts.** If `a` scans and its strings and comments are closed, then the
scan of `a` and `b` with a space between them succeeds if and only if the scan of `b` does. It
gives the tokens of `a` and then those of `b`, or the error of `b` at its place behind `a` and the
space. -/
theorem scan_separated {a : Text} {s : Scan} (h : scan a 0 false = .ok s) (hd : a.Delimited)
    (b : Text) :
    scan (a ++ [' '] ++ b) 0 false =
      ((scan b 0 false).mapError (·.shift (a.byteLength + 1))).map fun r =>
        ⟨s.tokens ++ r.tokens, a.byteLength + 1 + r.stop⟩ := by
  obtain ⟨-, placed, hrun, htokens⟩ := scan_ok h
  have hclosed : Lexer.Closed a placed := hd placed s.stop (Lexer.placedTokens_eq_ok_iff.mpr hrun)
  have hb : ((Lexer.ofOffset a 0).withBlanks false).cursor.OnBoundary :=
    Cursor.onBoundary_ofOffset a.isBoundary_zero
  have hread := hrun.readTokens_append_space rfl hb hclosed b
  have hrest : ((Lexer.ofOffset a 0).withBlanks false).cursor.rest = a := a.fromByte_zero
  rw [hrest, ← htokens] at hread
  rw [scan_eq_readTokens (Text.isBoundary_zero _).canStart,
    scan_eq_readTokens (Text.isBoundary_zero b).canStart, Text.fromByte_zero, Text.fromByte_zero,
    List.append_assoc, List.singleton_append, hread, Text.byteLength_append, Text.byteLength_cons]
  rcases b.readTokens false with e | tokens
  · have he : (e.shift (a.byteLength + 1)).shift 0 = (e.shift 0).shift (a.byteLength + 1) := by
      rw [ScanError.shift_shift, ScanError.shift_shift, Nat.zero_add, Nat.add_zero]
    exact congrArg Except.error he
  · have hspace : ' '.utf8Size = 1 := rfl
    have hstop : 0 + (a.byteLength + (' '.utf8Size + b.byteLength)) =
        a.byteLength + 1 + (0 + b.byteLength) := by omega
    rw [hstop]
    rfl

theorem scan_separated_closed_string :
    Text.Delimited "`x``` -".toList ∧
    scan ("`x``` -".toList ++ [' '] ++ ['=']) 0 false =
      .ok ⟨[⟨.string, "x`".toList⟩, ⟨.special, ['-']⟩, ⟨.special, ['=']⟩], 9⟩ ∧
    scan ("`x``` -".toList ++ [' '] ++ ['é']) 0 false = .error ⟨.unknownCharacter 'é', 8⟩ := by
  have hdrive : ((Lexer.ofOffset "`x``` -".toList 0).withBlanks false).drive
      (List.replicate 3 .nextToken) =
      ([⟨⟨.string, "x`".toList⟩, 0, 5⟩, ⟨⟨.special, ['-']⟩, 6, 7⟩], some (.ok 7)) := rfl
  have hequals : ((Lexer.ofOffset ['='] 0).withBlanks false).drive (List.replicate 2 .nextToken) =
      ([⟨⟨.special, ['=']⟩, 0, 1⟩], some (.ok 1)) := rfl
  have hletter : ((Lexer.ofOffset ['é'] 0).withBlanks false).drive (List.replicate 1 .nextToken) =
      ([], some (.error ⟨.unknownCharacter 'é', 0⟩)) := rfl
  have hd : Text.Delimited "`x``` -".toList := by
    intro placed stop hp
    rw [Lexer.placedTokens_of_drive hdrive] at hp
    obtain ⟨rfl, -⟩ := Prod.mk.inj (Except.ok.inj hp)
    unfold Lexer.Closed
    decide
  have h := scan_separated (scan_of_drive (Text.isBoundary_zero _).canStart false hdrive) hd
  refine ⟨hd, ?_, ?_⟩
  · rw [h, scan_of_drive (Text.isBoundary_zero _).canStart false hequals]
    rfl
  · rw [h, scan_of_drive (Text.isBoundary_zero _).canStart false hletter]
    rfl

end Smalltalk
