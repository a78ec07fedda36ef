import Smalltalk.Proofs.ScriptCode

/-! # Comments and the code around them

A comment is delimited on both sides, its rendering runs to the end of a line. So what follows a
comment in its line is lost, and so is a slash right in front of it, with which the rendering starts
a comment. Comments that stand apart from both leave the code alone.

* `CommentsApart`: every comment is the last thing in its line, and none follows a slash.
* `Lexer.Run.not_division_pair`: a scan never finds two slashes side by side.
* `codeFrom_of_commentsApart`: comments that stand apart change none of the code.
* `costs_renderTokens`: the others take some of it away.
* `code_render`: both together, for every text that can be rendered. -/

namespace Smalltalk

/-! ### Where comments stand -/

/-- A run of blanks within a line. -/
def Token.isGap (k : Token) : Bool :=
  k.kind = .whitespace && !k.value.any Script.isLineTerminator

/-- Nothing but blanks and comments stands in front of the next line end. -/
def EndsLine (tokens : List Token) : Prop :=
  ∀ k ∈ (tokens.dropWhile (·.isGap)).head?, k.kind = .comment ∨ k.kind = .whitespace

/-- **Every comment is the last thing in its line, and none follows a slash.** -/
def CommentsApart (tokens : List Token) : Prop :=
  ∀ front v rest, tokens = front ++ ⟨.comment, v⟩ :: rest →
    front.getLast? ≠ some .division ∧ EndsLine rest

/-- The tokens that are no comments. -/
def withoutComments (tokens : List Token) : List Token := tokens.filter (·.kind ≠ .comment)

theorem withoutComments_cons_of_eq {k : Token} (h : k.kind = .comment) (ks : List Token) :
    withoutComments (k :: ks) = withoutComments ks := by
  simp [withoutComments, h]

theorem withoutComments_cons_of_ne {k : Token} (h : k.kind ≠ .comment) (ks : List Token) :
    withoutComments (k :: ks) = k :: withoutComments ks := by
  simp [withoutComments, h]

theorem endsLine_cons_of_isGap {k : Token} (h : k.isGap) (ks : List Token) :
    EndsLine (k :: ks) ↔ EndsLine ks := by
  unfold EndsLine
  rw [List.dropWhile_cons_of_pos h]

theorem endsLine_cons_of_not_isGap {k : Token} (h : ¬ k.isGap) (ks : List Token) :
    EndsLine (k :: ks) ↔ k.kind = .comment ∨ k.kind = .whitespace := by
  unfold EndsLine
  rw [List.dropWhile_cons_of_neg h]
  simp

theorem commentsApart_nil : CommentsApart [] := by
  intro front v rest h
  simp at h

theorem commentsApart_cons {k : Token} {ks : List Token} :
    CommentsApart (k :: ks) ↔
      (k.kind = .comment → EndsLine ks) ∧
      (k = .division → ∀ k' ∈ ks.head?, k'.kind ≠ .comment) ∧ CommentsApart ks := by
  constructor
  · intro h
    refine ⟨fun hk => ?_, fun hk k' hk' hc => ?_, fun front v rest hks => ?_⟩
    · obtain ⟨kind, v⟩ := k
      subst hk
      exact (h [] v ks rfl).2
    · obtain ⟨rest, rfl⟩ := List.head?_eq_some_iff.mp hk'
      obtain ⟨kind, v⟩ := k'
      subst hc
      exact (h [k] v rest rfl).1 (by rw [hk]; rfl)
    · have hfront := h (k :: front) v rest (by rw [hks]; rfl)
      refine ⟨fun hlast => hfront.1 ?_, hfront.2⟩
      rw [List.getLast?_cons, hlast]
      rfl
  · rintro ⟨hcomment, hslash, hrest⟩ front v rest h
    cases front with
    | nil =>
      obtain ⟨rfl, rfl⟩ := List.cons.inj h
      exact ⟨by simp, hcomment rfl⟩
    | cons k' front =>
      obtain ⟨rfl, rfl⟩ := List.cons.inj h
      obtain ⟨hlast, hends⟩ := hrest front v rest rfl
      refine ⟨?_, hends⟩
      cases front with
      | nil =>
        intro hk
        have hk' : k = .division := by simpa using hk
        exact hslash hk' _ rfl rfl
      | cons k' front => simpa [List.getLast?_cons_cons] using hlast

instance (tokens : List Token) : Decidable (EndsLine tokens) := by
  unfold EndsLine; infer_instance

instance decidableCommentsApart : (tokens : List Token) → Decidable (CommentsApart tokens)
  | [] => isTrue commentsApart_nil
  | _ :: ks =>
    have := decidableCommentsApart ks
    decidable_of_iff _ commentsApart_cons.symm

/-! ### The tokens of a scan -/

namespace Lexer

/-- A slash is read together with a second one behind it. -/
theorem Found.not_division {l l' l'' : Lexer} {lexeme lexeme' : Text}
    (h : l.Found .division lexeme l') (h' : l'.Found .division lexeme' l'')
    (hk : l'.keepBlanks = true) : False := by
  have hlexeme : lexeme = ['/'] := h.writtenAs
  have hlexeme' : lexeme' = ['/'] := h'.writtenAs
  have hrest : l'.cursor.rest = '/' :: l''.cursor.rest := by
    rw [h'.split, skipped_of_keepBlanks hk, hlexeme']
    rfl
  obtain ⟨c, t, hct, hr⟩ := h.reading
  rw [hlexeme, hrest] at hct
  obtain ⟨rfl, rfl⟩ := List.cons.inj hct
  have hboth : (Reading.ofText '/' ('/' :: l''.cursor.rest)).lexeme = ['/', '/'] := rfl
  have hsame := congrArg Reading.lexeme hr
  rw [hlexeme] at hsame
  exact absurd (hboth.symm.trans hsame) (by decide)

/-- **A scan that keeps blanks never finds two slashes side by side.** -/
theorem Run.not_division_pair {l : Lexer} {placed : List PlacedToken} {stop : Nat}
    (h : l.Run placed stop) (hk : l.keepBlanks = true) :
    ¬ [Token.division, Token.division] <:+: placed.map (·.token) := by
  induction h with
  | done => simp
  | @token l l' k lexeme placed stop hn hf hr ih =>
    have hk' : l'.keepBlanks = true := hf.keepBlanks.trans hk
    rw [List.map_cons, List.infix_cons_iff, not_or]
    refine ⟨?_, ih hk'⟩
    rw [List.cons_prefix_cons]
    rintro ⟨rfl, hnext⟩
    cases hr with
    | done => simp at hnext
    | token hn' hf' hr' =>
      rw [List.map_cons, List.cons_prefix_cons] at hnext
      obtain ⟨rfl, -⟩ := hnext
      exact hf.not_division hf' hk'

end Lexer

/-! ### Scripts of lists of tokens -/

theorem renderTokens_cons {k : Token} {ks : List Token} {js : Text}
    (h : renderTokens (k :: ks) = .ok js) :
    ∃ s r, Script.ofToken k = .ok s ∧ renderTokens ks = .ok r ∧ js = s ++ r := by
  rcases hs : Script.ofToken k with fault | s
  · simp [renderTokens, hs] at h
  · rcases hr : renderTokens ks with e | r
    · simp [renderTokens, hs, hr, Except.map] at h
    · simp only [renderTokens, hs, hr, Except.map, Except.ok.injEq] at h
      exact ⟨s, r, rfl, rfl, h.symm⟩

theorem renderTokens_withoutComments {ks : List Token} {js : Text} (h : renderTokens ks = .ok js) :
    ∃ js', renderTokens (withoutComments ks) = .ok js' := by
  induction ks generalizing js with
  | nil => exact ⟨[], rfl⟩
  | cons k ks ih =>
    obtain ⟨s, r, hs, hr, -⟩ := renderTokens_cons h
    obtain ⟨r', hr'⟩ := ih hr
    by_cases hk : k.kind = .comment
    · exact ⟨r', by rw [withoutComments_cons_of_eq hk, hr']⟩
    · refine ⟨s ++ r', ?_⟩
      rw [withoutComments_cons_of_ne hk]
      simp only [renderTokens, hs, hr']
      rfl

/-! ### Comments and blanks, read as a script -/

namespace Script

/-- A mark starts a comment, also behind a slash, or stands within one. -/
theorem follow_mark {m : Mode} (hm : m = .code ∨ m = .slash ∨ m = .comment) (t : Text) :
    follow m (mark ++ t) = follow .comment t := by
  rcases hm with rfl | rfl | rfl <;> rfl

/-- A comment that stays commented is no code and does not end by itself. -/
theorem follow_commentBody {v : Text} (h : v.StaysCommented) :
    follow .comment (commentBody v) = ([], .comment) := by
  induction v using lines.induct with
  | case1 => rfl
  | case2 t ih =>
    rw [staysCommented_cons, staysCommented_cons] at h
    rw [commentBody_cons (by decide), commentBody_feed]
    change follow .code (mark ++ commentBody t) = _
    rw [follow_mark (Or.inl rfl), ih h.2.2]
  | case3 c t hcr hc ih =>
    obtain ⟨hmark, ht⟩ := staysCommented_cons.mp h
    by_cases hn : c = '\n'
    · subst hn
      rw [commentBody_feed]
      change follow .code (mark ++ commentBody t) = _
      rw [follow_mark (Or.inl rfl), ih ht]
    · -- the mark behind the line end is one of the comment itself
      have hprefix : mark <+: t := by
        rcases hmark ((isLineTerminator_cases hc).resolve_left hn) with ⟨rfl, hfeed⟩ | hprefix
        · obtain ⟨t', rfl⟩ := List.head?_eq_some_iff.mp hfeed
          exact absurd rfl (hcr t' rfl)
        · exact hprefix
      obtain ⟨r, hr⟩ := (prefix_commentBody_iff (by decide)).mpr hprefix
      have hstep : step .comment c = ([], .code) := by
        rw [step, hc]
        rfl
      have hbody := ih ht
      rw [← hr, follow_mark (Or.inr (Or.inr rfl))] at hbody
      rw [commentBody_cons hn, follow, hstep, ← hr, follow_mark (Or.inl rfl), hbody]
      rfl
  | case4 c t _ hc ih =>
    have hc' : isLineTerminator c = false := by simpa using hc
    have hn : c ≠ '\n' := by
      rintro rfl
      exact hc rfl
    have hstep : step .comment c = ([], .comment) := by
      rw [step, hc']
      rfl
    rw [staysCommented_cons_of_ne (Or.inr hc')] at h
    rw [commentBody_cons hn, follow, hstep, ih h]
    rfl

theorem follow_lineComments {v : Text} (h : v.StaysCommented) {m : Mode}
    (hm : m = .code ∨ m = .slash ∨ m = .comment) :
    follow m (lineComments v) = ([], .comment) := by
  rw [lineComments_eq, follow_mark hm, follow_commentBody h]

theorem isBlank_of_isWhitespace {c : Char} (h : c.isWhitespace) : isBlank c := by
  simp only [Char.isWhitespace, Bool.or_eq_true, decide_eq_true_eq, or_assoc] at h
  rcases h with rfl | rfl | rfl | rfl <;> decide

/-- Of blanks nothing is kept but a slash in front of them. -/
theorem follow_blanks {w : Text} (hne : w ≠ []) (h : ∀ c ∈ w, isBlank c) {m : Mode}
    (hm : m = .code ∨ m = .slash) :
    follow m w = (if m = .slash then ['/'] else [], .code) := by
  rcases hm with rfl | rfl
  · exact follow_code_blanks h
  · obtain ⟨c, t, rfl⟩ := List.exists_cons_of_ne_nil hne
    have hc : c ≠ '/' := by
      rintro rfl
      exact absurd (h '/' (by simp)) (by decide)
    rw [follow_slash hc, follow_code_blanks h]
    rfl

end Script

/-! ### One token -/

/-- **Tokens whose scripts can be read one by one:** their values have the shapes of their kinds,
comments stay commented, and no two slashes come together without the comments. -/
structure Readable (ks : List Token) : Prop where
  shaped : ∀ k ∈ ks, k.HasShape
  commented : ∀ k ∈ ks, k.kind = .comment → k.value.StaysCommented
  unpaired : ¬ [Token.division, Token.division] <:+: withoutComments ks

/-- A reader who stands at `m` can go on with the tokens: no slash follows a slash. -/
def Awaits (m : Script.Mode) (ks : List Token) : Prop :=
  m = .code ∨ m = .slash ∧ (withoutComments ks).head? ≠ some .division

theorem Readable.tail {k : Token} {ks : List Token} (h : Readable (k :: ks)) : Readable ks := by
  refine ⟨fun k' hk' => h.shaped k' (by simp [hk']), fun k' hk' => h.commented k' (by simp [hk']),
    fun hpair => h.unpaired ?_⟩
  by_cases hk : k.kind = .comment
  · rw [withoutComments_cons_of_eq hk]
    exact hpair
  · rw [withoutComments_cons_of_ne hk]
    exact List.infix_cons hpair

/-- Behind a token that is neither a comment nor blank the reader can go on. -/
theorem Readable.awaits {k : Token} {ks : List Token} (h : Readable (k :: ks)) :
    Awaits (if k = .division then .slash else .code) ks := by
  by_cases hk : k = .division
  · rw [if_pos hk]
    refine Or.inr ⟨rfl, fun hnext => h.unpaired ?_⟩
    obtain ⟨rest, hrest⟩ := List.head?_eq_some_iff.mp hnext
    have hk' : k.kind ≠ .comment := by
      rw [hk]
      decide
    rw [withoutComments_cons_of_ne hk', hrest, hk]
    exact ⟨[], rest, rfl⟩
  · rw [if_neg hk]
    exact Or.inl rfl

theorem Awaits.solid {m : Script.Mode} {k : Token} {ks : List Token} (h : Awaits m (k :: ks))
    (hc : k.kind ≠ .comment) : m = .code ∨ m = .slash ∧ k ≠ .division := by
  refine h.imp_right fun h => ⟨h.1, fun hk => h.2 ?_⟩
  rw [withoutComments_cons_of_ne hc, hk]
  rfl

theorem eq_division_of_mode {k : Token}
    (h : (if k = .division then Script.Mode.slash else .code) = .slash) : k = .division := by
  by_cases hk : k = .division
  · exact hk
  · rw [if_neg hk] at h
    cases h

/-- What the first token of a list does to a reader, and what it adds to the script of the tokens
that are no comments. -/
inductive Passage (k : Token) (s : Text) : Text → Prop
  | comment (hk : k.kind = .comment)
    (hf : ∀ m, m = .code ∨ m = .slash ∨ m = .comment → Script.follow m s = ([], .comment)) :
    Passage k s []
  | blanks (hk : k.kind = .whitespace)
    (hf : ∀ m, m = .code ∨ m = .slash →
      Script.follow m s = (if m = .slash then ['/'] else [], .code))
    (hc : Script.follow .comment s = ([], if k.isGap then .comment else .code)) : Passage k s s
  | solid (hc : k.kind ≠ .comment) (hw : k.kind ≠ .whitespace) (hs : Script.Solid k s) :
    Passage k s s

theorem Readable.passage {k : Token} {ks : List Token} {js js' : Text} (h : Readable (k :: ks))
    (hjs : renderTokens (k :: ks) = .ok js)
    (hjs' : renderTokens (withoutComments (k :: ks)) = .ok js') :
    ∃ s s' r r', js = s ++ r ∧ js' = s' ++ r' ∧ renderTokens ks = .ok r ∧
      renderTokens (withoutComments ks) = .ok r' ∧ Passage k s s' := by
  obtain ⟨s, r, hs, hr, rfl⟩ := renderTokens_cons hjs
  have hshape := h.shaped k (by simp)
  by_cases hc : k.kind = .comment
  · rw [withoutComments_cons_of_eq hc] at hjs'
    refine ⟨s, [], r, js', rfl, rfl, hr, hjs', .comment hc fun m hm => ?_⟩
    obtain ⟨kind, v⟩ := k
    subst hc
    rw [← Except.ok.inj hs]
    exact Script.follow_lineComments (h.commented _ (by simp) rfl) hm
  · rw [withoutComments_cons_of_ne hc] at hjs'
    obtain ⟨s', r', hs', hr', rfl⟩ := renderTokens_cons hjs'
    obtain rfl : s = s' := Except.ok.inj (hs.symm.trans hs')
    refine ⟨s, s, r, r', rfl, rfl, hr, hr', ?_⟩
    by_cases hw : k.kind = .whitespace
    · obtain ⟨kind, v⟩ := k
      subst hw
      obtain ⟨hne, hall⟩ : v ≠ [] ∧ ∀ c ∈ v, c.isWhitespace := hshape
      obtain rfl : v = s := Except.ok.inj hs
      have hblank : ∀ c ∈ v, Script.isBlank c := fun c hc =>
        Script.isBlank_of_isWhitespace (hall c hc)
      refine .blanks rfl (fun m => Script.follow_blanks hne hblank) ?_
      rw [Script.follow_comment_blanks hblank, Token.isGap]
      cases v.any Script.isLineTerminator <;> rfl
    · exact .solid hc hw (Script.solid_ofToken hshape hs hc hw)

/-! ### All tokens -/

open Script in
/-- **Comments that stand apart change none of the code.** A reader behind such a comment is in it
until the line ends, and nothing but blanks is lost meanwhile. -/
theorem codeFrom_of_commentsApart {ks : List Token} {js js' : Text} (h : Readable ks)
    (hapart : CommentsApart ks) (hjs : renderTokens ks = .ok js)
    (hjs' : renderTokens (withoutComments ks) = .ok js') :
    (∀ m, Awaits m ks → (m = .slash → ∀ k ∈ ks.head?, k.kind ≠ .comment) →
      codeFrom m js = codeFrom m js') ∧
    (EndsLine ks → codeFrom .comment js = codeFrom .code js') := by
  induction ks generalizing js js' with
  | nil =>
    obtain rfl : [] = js := Except.ok.inj hjs
    obtain rfl : [] = js' := Except.ok.inj hjs'
    exact ⟨fun m _ _ => rfl, fun _ => rfl⟩
  | cons k ks ih =>
    obtain ⟨hends, hslash, hapart'⟩ := commentsApart_cons.mp hapart
    obtain ⟨s, s', r, r', rfl, rfl, hr, hr', hp⟩ := h.passage hjs hjs'
    obtain ⟨ihcode, ihcomment⟩ := ih h.tail hapart' hr hr'
    have ihcode' : codeFrom .code r = codeFrom .code r' :=
      ihcode .code (Or.inl rfl) (fun hm => by cases hm)
    cases hp with
    | comment hk hf =>
      have hcomment := ihcomment (hends hk)
      refine ⟨fun m hm hfirst => ?_, fun _ => ?_⟩
      · have hm' : m = .code := hm.resolve_right fun hm => hfirst hm.1 k rfl hk
        rw [codeFrom_append, hf m (Or.inl hm'), hm']
        exact hcomment
      · rw [codeFrom_append, hf .comment (Or.inr (Or.inr rfl))]
        exact hcomment
    | blanks hk hf hc =>
      refine ⟨fun m hm _ => ?_, fun hline => ?_⟩
      · rw [codeFrom_append, codeFrom_append, hf m (hm.imp_right And.left), ihcode']
      · rw [codeFrom_append, codeFrom_append, hc, hf .code (Or.inl rfl)]
        by_cases hgap : k.isGap
        · rw [if_pos hgap, ihcomment ((endsLine_cons_of_isGap hgap ks).mp hline)]
          rfl
        · rw [if_neg hgap, ihcode']
          rfl
    | solid hc hw hs =>
      refine ⟨fun m hm _ => ?_, fun hline => ?_⟩
      · have hrest := ihcode _ h.awaits fun hm => hslash (eq_division_of_mode hm)
        rw [codeFrom_append, codeFrom_append, hs.mode_eq (hm.solid hc), hrest]
      · have hgap : ¬ k.isGap := by simp [Token.isGap, hw]
        exact absurd ((endsLine_cons_of_not_isGap hgap ks).mp hline) (by simp [hc, hw])

/-- **What comments cost.** `js` is the script of the tokens and `js'` the one without the comments.
Comments never add to the code, and what they take away is nothing only if they stand apart. -/
structure Costs (ks : List Token) (js js' : Text) : Prop where
  outside : ∀ m, Awaits m ks →
    (Script.codeFrom m js).length ≤ (Script.codeFrom m js').length ∧
    ((Script.codeFrom m js).length = (Script.codeFrom m js').length →
      CommentsApart ks ∧ (m = .slash → ∀ k ∈ ks.head?, k.kind ≠ .comment))
  /-- With a reader of the script who stands in a comment. -/
  inside : ∀ m, Awaits m ks →
    (Script.codeFrom .comment js).length ≤ (Script.codeFrom m js').length ∧
    ((Script.codeFrom .comment js).length = (Script.codeFrom m js').length →
      m = .code ∧ EndsLine ks ∧ CommentsApart ks)

namespace Costs

open Script

theorem nil : Costs [] [] [] := by
  refine ⟨fun m _ => ⟨Nat.le_refl _, fun _ => ⟨commentsApart_nil, by simp⟩⟩,
    fun m hm => ⟨Nat.zero_le _, fun hlen => ⟨?_, by simp [EndsLine], commentsApart_nil⟩⟩⟩
  rcases hm with rfl | ⟨rfl, -⟩
  · rfl
  · cases hlen

variable {k : Token} {ks : List Token} {s r r' : Text}

theorem comment_cons (h : Costs ks r r') (hk : k.kind = .comment)
    (hf : ∀ m, m = .code ∨ m = .slash ∨ m = .comment → follow m s = ([], .comment)) :
    Costs (k :: ks) (s ++ r) r' := by
  have hdiv : k ≠ .division := Token.ne_division (by simp [hk])
  have hgap : ¬ k.isGap := by simp [Token.isGap, hk]
  have hstep : ∀ m, Awaits m (k :: ks) →
      (codeFrom .comment r).length ≤ (codeFrom m r').length ∧
      ((codeFrom .comment r).length = (codeFrom m r').length →
        m = .code ∧ EndsLine (k :: ks) ∧ CommentsApart (k :: ks)) := by
    intro m hm
    rw [Awaits, withoutComments_cons_of_eq hk] at hm
    obtain ⟨hle, heq⟩ := h.inside m hm
    refine ⟨hle, fun hlen => ?_⟩
    obtain ⟨hcode, hends, hapart⟩ := heq hlen
    exact ⟨hcode, (endsLine_cons_of_not_isGap hgap ks).mpr (Or.inl hk),
      commentsApart_cons.mpr ⟨fun _ => hends, fun hk' => absurd hk' hdiv, hapart⟩⟩
  refine ⟨fun m hm => ?_, fun m hm => ?_⟩
  · rw [codeFrom_append, hf m (hm.imp_right fun hm => Or.inl hm.1)]
    refine ⟨(hstep m hm).1, fun hlen => ?_⟩
    obtain ⟨rfl, -, hapart⟩ := (hstep m hm).2 hlen
    exact ⟨hapart, fun hm => by cases hm⟩
  · rw [codeFrom_append, hf .comment (Or.inr (Or.inr rfl))]
    exact hstep m hm

theorem blanks_cons (h : Costs ks r r') (hk : k.kind = .whitespace)
    (hf : ∀ m, m = .code ∨ m = .slash → follow m s = (if m = .slash then ['/'] else [], .code))
    (hc : follow .comment s = ([], if k.isGap then .comment else .code)) :
    Costs (k :: ks) (s ++ r) (s ++ r') := by
  have hkc : k.kind ≠ .comment := by simp [hk]
  have hdiv : k ≠ .division := Token.ne_division (by simp [hk])
  have hcons : CommentsApart ks → CommentsApart (k :: ks) := fun hapart =>
    commentsApart_cons.mpr ⟨fun hk' => absurd hk' hkc, fun hk' => absurd hk' hdiv, hapart⟩
  obtain ⟨hle, heq⟩ := h.outside .code (Or.inl rfl)
  obtain ⟨hlein, heqin⟩ := h.inside .code (Or.inl rfl)
  refine ⟨fun m hm => ?_, fun m hm => ?_⟩
  · rw [codeFrom_append, codeFrom_append, hf m (hm.imp_right And.left), List.length_append,
      List.length_append]
    exact ⟨Nat.add_le_add_left hle _, fun hlen =>
      ⟨hcons (heq (Nat.add_left_cancel hlen)).1, fun _ => by simpa using hkc⟩⟩
  · -- a slash in front of the blanks is kept without the comment
    have hslash : (if m = .slash then ['/'] else []).length = 0 → m = .code := by
      rcases hm with rfl | ⟨rfl, -⟩
      · exact fun _ => rfl
      · exact fun hlen => by cases hlen
    rw [codeFrom_append, codeFrom_append, hc, hf m (hm.imp_right And.left)]
    simp only [List.length_append, List.length_nil, Nat.zero_add]
    by_cases hgap : k.isGap
    · rw [if_pos hgap]
      refine ⟨by omega, fun hlen => ?_⟩
      obtain ⟨-, hends, hapart⟩ := heqin (by omega)
      exact ⟨hslash (by omega), (endsLine_cons_of_isGap hgap ks).mpr hends, hcons hapart⟩
    · rw [if_neg hgap]
      refine ⟨by omega, fun hlen => ?_⟩
      exact ⟨hslash (by omega), (endsLine_cons_of_not_isGap hgap ks).mpr (Or.inr hk),
        hcons (heq (by omega)).1⟩

theorem solid_cons (h : Costs ks r r') (hread : Readable (k :: ks)) (hone : k.IsOneLine)
    (hc : k.kind ≠ .comment) (hs : Solid k s) : Costs (k :: ks) (s ++ r) (s ++ r') := by
  refine ⟨fun m hm => ?_, fun m hm => ?_⟩
  · obtain ⟨hle, heq⟩ := h.outside _ hread.awaits
    rw [codeFrom_append, codeFrom_append, hs.mode_eq (hm.solid hc), List.length_append,
      List.length_append]
    refine ⟨Nat.add_le_add_left hle _, fun hlen => ?_⟩
    obtain ⟨hapart, hslash⟩ := heq (Nat.add_left_cancel hlen)
    exact ⟨commentsApart_cons.mpr ⟨fun hk => absurd hk hc, fun hk => hslash (by rw [if_pos hk]),
      hapart⟩, fun _ => by simpa using hc⟩
  · -- the comment takes the whole token, of which something is kept without it
    obtain ⟨hle, heq⟩ := h.inside _ hread.awaits
    rw [codeFrom_append, codeFrom_append, follow_comment (hs.oneLine hone),
      hs.mode_eq (hm.solid hc)]
    simp only [List.length_append, List.length_nil, Nat.zero_add]
    refine ⟨by omega, fun hlen => ?_⟩
    by_cases hk : k = .division
    · obtain ⟨hmode, -, -⟩ := heq (by omega)
      rw [if_pos hk] at hmode
      cases hmode
    · have hkept := List.length_pos_iff.mpr (hs.kept_ne_nil (hm.imp_right And.left) hk)
      omega

end Costs

/-- **Comments that do not stand apart take code away,** if strings and symbols have no line ends
that would end a comment in front of them. -/
theorem costs_renderTokens {ks : List Token} {js js' : Text} (h : Readable ks)
    (hone : ∀ k ∈ ks, k.IsOneLine) (hjs : renderTokens ks = .ok js)
    (hjs' : renderTokens (withoutComments ks) = .ok js') : Costs ks js js' := by
  induction ks generalizing js js' with
  | nil =>
    obtain rfl : [] = js := Except.ok.inj hjs
    obtain rfl : [] = js' := Except.ok.inj hjs'
    exact .nil
  | cons k ks ih =>
    obtain ⟨s, s', r, r', rfl, rfl, hr, hr', hp⟩ := h.passage hjs hjs'
    have hrest := ih h.tail (fun k' hk' => hone k' (by simp [hk'])) hr hr'
    cases hp with
    | comment hk hf => exact hrest.comment_cons hk hf
    | blanks hk hf hc => exact hrest.blanks_cons hk hf hc
    | solid hc _ hs => exact hrest.solid_cons h (hone k (by simp)) hc hs

/-! ### Rendered texts -/

/-- Comments that stand apart keep no slashes apart. -/
theorem CommentsApart.not_division_pair {ks : List Token} (h : CommentsApart ks)
    (hpair : ¬ [Token.division, Token.division] <:+: ks) :
    ¬ [Token.division, Token.division] <:+: withoutComments ks := by
  induction ks with
  | nil => simp [withoutComments]
  | cons k ks ih =>
    obtain ⟨-, hslash, hrest⟩ := commentsApart_cons.mp h
    have hrest := ih hrest fun hks => hpair (List.infix_cons hks)
    by_cases hk : k.kind = .comment
    · rw [withoutComments_cons_of_eq hk]
      exact hrest
    · rw [withoutComments_cons_of_ne hk, List.infix_cons_iff, not_or, List.cons_prefix_cons]
      refine ⟨?_, hrest⟩
      rintro ⟨rfl, hnext⟩
      cases ks with
      | nil => simp [withoutComments] at hnext
      | cons k' ks =>
        rw [withoutComments_cons_of_ne (hslash rfl k' rfl), List.cons_prefix_cons] at hnext
        obtain ⟨rfl, -⟩ := hnext
        exact hpair ⟨[], ks, rfl⟩

/-- **Where comments leave the code of a text alone.** A text that can be rendered can be rendered
without its comments. Let its comments stay commented. If they stand apart, both scripts have the
same code. The converse holds where no string or symbol has a line end, which would end a comment in
front of it, and no comment stands alone between two slashes, which would start one without it. -/
theorem code_render {text js : Text} (h : render text = .ok js) :
    ∃ s js', scan text 0 true = .ok s ∧ renderTokens (withoutComments s.tokens) = .ok js' ∧
      ((∀ k ∈ s.tokens, k.kind = .comment → k.value.StaysCommented) →
        (CommentsApart s.tokens → Script.code js = Script.code js') ∧
        ((∀ k ∈ s.tokens, k.IsOneLine) →
          ¬ [Token.division, Token.division] <:+: withoutComments s.tokens →
          Script.code js = Script.code js' → CommentsApart s.tokens)) := by
  rcases hs : scan text 0 true with e | s
  · rw [render_of_scan_error hs] at h
    cases h
  obtain ⟨-, placed, hrun, htokens⟩ := scan_ok hs
  have hshape : ∀ k ∈ s.tokens, k.HasShape := htokens ▸ hrun.hasShape
  have hpair : ¬ [Token.division, Token.division] <:+: s.tokens :=
    htokens ▸ hrun.not_division_pair rfl
  have hjs := renderTokens_of_render hs h
  obtain ⟨js', hjs'⟩ := renderTokens_withoutComments hjs
  refine ⟨s, js', rfl, hjs', fun hstays => ⟨fun hapart => ?_, fun hone hpair' hcode => ?_⟩⟩
  · have hread : Readable s.tokens := ⟨hshape, hstays, hapart.not_division_pair hpair⟩
    exact (codeFrom_of_commentsApart hread hapart hjs hjs').1 .code (Or.inl rfl)
      (fun hm => by cases hm)
  · have hcosts := costs_renderTokens ⟨hshape, hstays, hpair'⟩ hone hjs hjs'
    exact ((hcosts.outside .code (Or.inl rfl)).2 (congrArg List.length hcode)).1

theorem code_render_lines :
    render "1 \x22one\ntwo\x22\n/ 2 \x22end\x22".toList =
      .ok "1 // one\n// two\n/ 2 // end".toList ∧
    ∃ s js', scan "1 \x22one\ntwo\x22\n/ 2 \x22end\x22".toList 0 true = .ok s ∧
      renderTokens (withoutComments s.tokens) = .ok js' ∧
      Script.code "1 // one\n// two\n/ 2 // end".toList = Script.code js' ∧
      Script.code js' = "1/2".toList := by
  have hdrive : ((Lexer.ofOffset "1 \x22one\ntwo\x22\n/ 2 \x22end\x22".toList 0).withBlanks
      true).drive (List.replicate 10 .nextToken) =
      ([⟨⟨.number, ['1']⟩, 0, 1⟩, ⟨⟨.whitespace, [' ']⟩, 1, 2⟩,
        ⟨⟨.comment, "one\ntwo".toList⟩, 2, 11⟩, ⟨⟨.whitespace, ['\n']⟩, 11, 12⟩,
        ⟨.division, 12, 13⟩, ⟨⟨.whitespace, [' ']⟩, 13, 14⟩, ⟨⟨.number, ['2']⟩, 14, 15⟩,
        ⟨⟨.whitespace, [' ']⟩, 15, 16⟩, ⟨⟨.comment, "end".toList⟩, 16, 21⟩], some (.ok 21)) := rfl
  have hscan := scan_of_drive (Text.isBoundary_zero _).canStart true hdrive
  have hrender : render "1 \x22one\ntwo\x22\n/ 2 \x22end\x22".toList =
      .ok "1 // one\n// two\n/ 2 // end".toList := render_of_renderTokens hscan rfl
  obtain ⟨s, js', hs, hjs', h⟩ := code_render hrender
  obtain rfl := Except.ok.inj (hscan.symm.trans hs)
  have hcode := (h (by decide)).1 (by decide)
  refine ⟨hrender, _, js', hs, hjs', hcode, ?_⟩
  rw [← hcode]
  decide

/-- A comment amid a line takes the rest of the line away. -/
theorem code_render_amid :
    ∃ s js', scan "1 \x22c\x22 + 2".toList 0 true = .ok s ∧
      render "1 \x22c\x22 + 2".toList = .ok "1 // c + 2".toList ∧
      renderTokens (withoutComments s.tokens) = .ok js' ∧
      Script.code "1 // c + 2".toList = "1".toList ∧ Script.code js' = "1+2".toList := by
  have hdrive : ((Lexer.ofOffset "1 \x22c\x22 + 2".toList 0).withBlanks true).drive
      (List.replicate 8 .nextToken) =
      ([⟨⟨.number, ['1']⟩, 0, 1⟩, ⟨⟨.whitespace, [' ']⟩, 1, 2⟩, ⟨⟨.comment, ['c']⟩, 2, 5⟩,
        ⟨⟨.whitespace, [' ']⟩, 5, 6⟩, ⟨⟨.special, ['+']⟩, 6, 7⟩, ⟨⟨.whitespace, [' ']⟩, 7, 8⟩,
        ⟨⟨.number, ['2']⟩, 8, 9⟩], some (.ok 9)) := rfl
  have hscan := scan_of_drive (Text.isBoundary_zero _).canStart true hdrive
  exact ⟨_, "1  + 2".toList, hscan, render_of_renderTokens hscan rfl, rfl, by decide, by decide⟩

end Smalltalk
