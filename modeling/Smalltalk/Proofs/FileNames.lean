import Smalltalk.Proofs.Delivery
import Smalltalk.Proofs.LinePieces

/-! # The file name of a path

A path with a file name is this name with a front before it and a tail behind it. The front is empty
or ends with a slash, and the tail is made of slashes and of single dots behind slashes, which count
for nothing. What is in the directory of a path, and what the path becomes with another extension,
can be read off these parts.

* `Path.Spelled`: the parts of a path. `Path.exists_spelled`: every path with a file name has them.
* `Path.Spelled.components_eq`, `Path.Spelled.parent?_eq`: the name is the last component, and the
  parent depends on the front alone.
* `Path.Spelled.withExtension_eq`: another extension stands behind the stem, unless nothing is left
  of the name but two dots, `Path.components_withExtension_of_isDotStemmed`. -/

namespace Smalltalk

theorem Text.splitAll_of_notMem {c : Char} {t : Text} (h : c ∉ t) : t.splitAll c = [t] :=
  (splitAll_eq_splitOn t c).trans (List.splitOn_eq_singleton h)

namespace Path

/-! ### The parts of a path -/

/-- A single name, not empty and without a slash, that a path does not leave out as one dot. -/
structure IsStep (name : Text) : Prop where
  ne_nil : name ≠ []
  slash : '/' ∉ name
  ne_dot : name ≠ ['.']

/-- **A single ordinary component:** not empty, without a slash, and neither one dot nor two. -/
structure IsName (name : Text) : Prop extends IsStep name where
  ne_dots : name ≠ ['.', '.']

/-- Nothing, or something that ends with a slash. -/
def IsFront (front : Text) : Prop := ∀ c ∈ front.getLast?, c = '/'

/-- Slashes, and single dots behind slashes. -/
def IsTail (tail : Text) : Prop :=
  ∃ steps : List Text, tail = steps.flatMap ('/' :: ·) ∧ ∀ step ∈ steps, step = [] ∨ step = ['.']

/-- The path `p` is spelled with the name `name`, a front and a tail. -/
structure Spelled (p : Path) (front name tail : Text) : Prop where
  eq : p = front ++ (name ++ tail)
  front : IsFront front
  name : IsName name
  tail : IsTail tail

theorem isTail_nil : IsTail [] := ⟨[], rfl, nofun⟩

/-- A front part of a tail is a tail. -/
theorem IsTail.of_isPrefix {s tail : Text} (h : IsTail tail) (hs : s <+: tail) : IsTail s := by
  obtain ⟨steps, rfl, hsteps⟩ := h
  induction steps generalizing s with
  | nil =>
    obtain rfl := List.prefix_nil.mp hs
    exact isTail_nil
  | cons step steps ih =>
    rw [List.forall_mem_cons] at hsteps
    rcases s with _ | ⟨c, s⟩
    · exact isTail_nil
    rw [List.flatMap_cons, List.cons_append, List.cons_prefix_cons] at hs
    obtain ⟨rfl, hs⟩ := hs
    rcases hsteps.1 with rfl | rfl
    · obtain ⟨steps', rfl, hsteps'⟩ := ih hsteps.2 hs
      exact ⟨[] :: steps', rfl, List.forall_mem_cons.mpr ⟨Or.inl rfl, hsteps'⟩⟩
    · rcases s with _ | ⟨d, s⟩
      · exact ⟨[[]], rfl, by simp⟩
      rw [List.cons_append, List.cons_prefix_cons] at hs
      obtain ⟨rfl, hs⟩ := hs
      obtain ⟨steps', rfl, hsteps'⟩ := ih hsteps.2 hs
      exact ⟨['.'] :: steps', rfl, List.forall_mem_cons.mpr ⟨Or.inr rfl, hsteps'⟩⟩

/-! ### Components -/

section Components

variable {p q : Path} {front name tail : Text}

theorem segments_front (h : IsFront front) (q : Path) :
    segments (front ++ q) = segments front ++ segments q := by
  rcases List.eq_nil_or_concat front with rfl | ⟨r, c, rfl⟩
  · rfl
  · obtain rfl : c = '/' := h c (by simp)
    have hnil : segments [] = [] := rfl
    rw [List.concat_eq_append, List.append_assoc, List.singleton_append, segments_append_slash,
      segments_append_slash, hnil, List.append_nil]

theorem segments_step (h : IsStep name) : segments name = [name] := by
  rw [segments, Text.splitAll_of_notMem h.slash]
  exact List.filter_cons_of_pos (by simpa using h.ne_nil)

theorem filter_step (h : IsStep name) : [name].filter (· ≠ ['.']) = [name] :=
  List.filter_cons_of_pos (by simpa using h.ne_dot)

/-- The dots of a tail count for nothing. -/
theorem filter_segments_tail (h : IsTail tail) (q : Path) :
    (segments (q ++ tail)).filter (· ≠ ['.']) = (segments q).filter (· ≠ ['.']) := by
  obtain ⟨steps, rfl, hsteps⟩ := h
  induction steps generalizing q with
  | nil => rw [List.flatMap_nil, List.append_nil]
  | cons step steps ih =>
    rw [List.forall_mem_cons] at hsteps
    have hstep : (segments step).filter (· ≠ ['.']) = [] := by
      rcases hsteps.1 with rfl | rfl <;> decide
    rw [List.flatMap_cons, List.cons_append, segments_append_slash, List.filter_append,
      ih _ hsteps.2, hstep, List.append_nil]

theorem head?_segments_step (h : IsStep name) (ht : IsTail tail) :
    (segments (name ++ tail)).head? = some name := by
  obtain ⟨steps, rfl, -⟩ := ht
  rcases steps with _ | ⟨step, steps⟩
  · rw [List.flatMap_nil, List.append_nil, segments_step h]
    rfl
  · rw [List.flatMap_cons, List.cons_append, segments_append_slash, segments_step h]
    rfl

theorem isAbsolute_append (h : IsStep name) (front tail : Text) :
    isAbsolute (front ++ (name ++ tail)) = isAbsolute front := by
  rcases front with _ | ⟨c, front⟩
  · obtain ⟨c, name, rfl⟩ := List.exists_cons_of_ne_nil h.ne_nil
    have hc : c ≠ '/' := fun hc => h.slash (hc ▸ List.mem_cons_self)
    simpa [isAbsolute] using hc
  · rfl

/-- One more name behind those of a path. -/
theorem components_concat (habs : isAbsolute p = isAbsolute q)
    (hhead : (segments p).head? = some ['.'] ↔ (segments q).head? = some ['.'])
    (hbody : (segments p).filter (· ≠ ['.']) = (segments q).filter (· ≠ ['.']) ++ [name]) :
    components p = components q ++ [component name] := by
  unfold components
  simp only [hbody, hhead, habs, List.map_append, List.map_singleton]
  split
  · rfl
  · split <;> rfl

/-- **A name behind a front is the last component.** -/
theorem components_append (hf : IsFront front) (h : IsStep name) (ht : IsTail tail) :
    components (front ++ (name ++ tail)) = components front ++ [component name] := by
  refine components_concat (isAbsolute_append h front tail) ?_ ?_
  · rw [segments_front hf, List.head?_append]
    rcases segments front with _ | ⟨segment, segments⟩
    · rw [head?_segments_step h ht]
      simpa using h.ne_dot
    · rfl
  · rw [segments_front hf, List.filter_append, filter_segments_tail ht, segments_step h,
      filter_step h]

theorem component_name (h : IsName name) : component name = .normal name := by
  rw [component, if_neg h.ne_dots]

theorem fileName?_concat (h : components p = components q ++ [.normal name]) :
    p.fileName? = some name := by
  rw [fileName?, h, List.getLast?_concat]

/-- A path below another one has one component more. -/
theorem components_join (h : IsName name) (p : Path) :
    components (p.join name) = components p ++ [.normal name] := by
  have habs : isAbsolute name = false := by
    rw [← List.append_nil name]
    exact isAbsolute_append h.toIsStep [] []
  rw [← component_name h]
  by_cases hp : p = []
  · have hjoin : p.join name = [] ++ (name ++ []) := by simp [join, hp]
    rw [hjoin, components_append (by simp [IsFront]) h.toIsStep isTail_nil, hp]
  have hsegments : (p.join name).segments = p.segments ++ [name] := by
    rw [segments_join hp habs, segments_step h.toIsStep]
  refine components_concat (isAbsolute_join hp habs) ?_ ?_
  · rw [hsegments, List.head?_append]
    rcases segments p with _ | ⟨segment, segments⟩
    · simpa using h.ne_dot
    · rfl
  · rw [hsegments, List.filter_append, filter_step h.toIsStep]

variable (h : Spelled p front name tail)
include h

theorem Spelled.components_eq : components p = components front ++ [.normal name] := by
  rw [h.eq, components_append h.front h.name.toIsStep h.tail, component_name h.name]

theorem Spelled.fileName?_eq : p.fileName? = some name := fileName?_concat h.components_eq

theorem Spelled.isAbsolute_eq : isAbsolute p = isAbsolute front := by
  rw [h.eq, isAbsolute_append h.name.toIsStep]

end Components

/-- **Every path with a file name has these parts.** -/
theorem exists_spelled {p : Path} {name : Text} (h : p.fileName? = some name) :
    ∃ front tail, Spelled p front name tail := by
  have hlast : (((segments p).filter (· ≠ ['.'])).map component).getLast? =
      some (.normal name) := by
    unfold fileName? at h
    split at h
    · next heq =>
      rw [Option.some.injEq] at h
      subst h
      unfold components at heq
      grind
    · cases h
  rw [List.getLast?_map, segments, List.filter_filter, List.getLast?_filter] at hlast
  obtain ⟨name', hfind, hname'⟩ := Option.map_eq_some_iff.mp hlast
  obtain ⟨hne, after, before, hsplit, hafter⟩ := List.find?_eq_some_iff_append.mp hfind
  have hdots : name' ≠ ['.', '.'] := by
    rintro rfl
    cases hname'
  obtain rfl : name' = name := by
    rw [component, if_neg hdots] at hname'
    exact Component.normal.inj hname'
  have hpieces : p.splitAll '/' = before.reverse ++ name' :: after.reverse := by
    rw [← List.reverse_reverse (p.splitAll '/'), hsplit]
    simp
  have hmem : name' ∈ p.splitAll '/' := by
    rw [hpieces]
    simp
  refine ⟨before.reverse.flatMap (· ++ ['/']), after.reverse.flatMap ('/' :: ·), ?_, ?_, ?_, ?_⟩
  · rw [← Text.intercalate_append_cons, ← hpieces, Text.splitAll_eq_splitOn,
      List.intercalate_splitOn]
  · intro c hc
    rcases before with _ | ⟨last, before⟩
    · cases hc
    · simpa [eq_comm] using hc
  · have hboth : name' ≠ ['.'] ∧ name' ≠ [] := by simpa using hne
    exact ⟨⟨hboth.2, Text.notMem_of_mem_splitAll hmem, hboth.1⟩, hdots⟩
  · refine ⟨after.reverse, rfl, fun step hstep => ?_⟩
    have hstep := hafter step (List.mem_reverse.mp hstep)
    by_cases hnil : step = []
    · exact Or.inl hnil
    · exact Or.inr (by simpa [hnil] using hstep)

/-! ### Without the tail -/

section Tails

variable {p : Path} {front name tail : Text}

theorem trimTail_append (h : IsTail tail) (q : Path) : trimTail (q ++ tail) = trimTail q := by
  obtain ⟨steps, rfl, hsteps⟩ := h
  induction steps generalizing q with
  | nil => rw [List.flatMap_nil, List.append_nil]
  | cons step steps ih =>
    rw [List.forall_mem_cons] at hsteps
    rw [List.flatMap_cons, ← List.append_assoc, ih _ hsteps.2]
    rcases hsteps.1 with rfl | rfl <;> simp [trimTail, dropReversedTail]

/-- A name ends neither with a slash nor with a dot behind a slash. -/
theorem trimTail_name (h : IsStep name) (front : Text) :
    trimTail (front ++ name) = front ++ name := by
  have hkeep : dropReversedTail (name.reverse ++ front.reverse) =
      name.reverse ++ front.reverse := by
    have hslash : '/' ∉ name.reverse := by simpa using h.slash
    have hne : name.reverse ≠ [] := by simpa using h.ne_nil
    have hdot : name.reverse ≠ ['.'] := by simpa using h.ne_dot
    generalize name.reverse = reversed at hslash hne hdot ⊢
    rcases reversed with _ | ⟨c, _ | ⟨d, rest⟩⟩
    · contradiction
    · unfold dropReversedTail
      split <;> simp_all
    · unfold dropReversedTail
      split <;> simp_all
  rw [trimTail, List.reverse_append, hkeep, ← List.reverse_append, List.reverse_reverse]

variable (h : Spelled p front name tail)
include h

theorem Spelled.trimTail_eq : trimTail p = front ++ name := by
  rw [h.eq, ← List.append_assoc, trimTail_append h.tail, trimTail_name h.name.toIsStep]

/-- **The parent depends on the front alone.** -/
theorem Spelled.parent?_eq : p.parent? =
    some (if trimTail front = [] ∧ isAbsolute front then ['/'] else trimTail front) := by
  have hfront : ((front ++ name).reverse.dropWhile (· ≠ '/')).reverse = front := by
    have hname : ∀ c ∈ name.reverse, decide (c ≠ '/') = true := fun c hc =>
      decide_eq_true fun heq => h.name.slash (heq ▸ List.mem_reverse.mp hc)
    rw [List.reverse_append, List.dropWhile_append_of_pos hname]
    rcases List.eq_nil_or_concat front with rfl | ⟨r, c, rfl⟩
    · rfl
    · obtain rfl : c = '/' := h.front c (by simp)
      simp
  rw [parent?, h.components_eq, List.getLast?_concat]
  simp only [h.trimTail_eq, hfront, h.isAbsolute_eq]

theorem Spelled.putExtension_eq (extension : Text) :
    p.putExtension extension = front ++ ((cutExtension name).1 ++ '.' :: extension) := by
  have htake : (front ++ name).take ((front ++ name).length - name.length) = front := by
    rw [List.length_append, Nat.add_sub_cancel, List.take_left]
  simp only [putExtension, h.fileName?_eq, h.trimTail_eq, htake, List.append_assoc]

end Tails

/-! ### Another extension -/

section Extensions

variable {p : Path} {stem extension name front tail : Text}

/-- A name is cut at its last dot. -/
theorem cutExtension_append (hstem : stem ≠ []) (h : '.' ∉ extension) :
    cutExtension (stem ++ '.' :: extension) = (stem, some extension) := by
  have hcut : Text.cut '.' (stem ++ '.' :: extension).reverse =
      (extension.reverse, some stem.reverse) := by
    have hreverse : (stem ++ '.' :: extension).reverse =
        extension.reverse ++ '.' :: stem.reverse := by simp
    rw [hreverse, Text.cut_append (by simpa using h), Text.cut_cons_self, List.append_nil]
  have hne : stem.reverse ≠ [] := by simpa using hstem
  simp only [cutExtension, hcut, if_neg hne, List.reverse_reverse]

/-- A name has no extension, or it is cut at its last dot. -/
theorem cutExtension_cases (name : Text) : cutExtension name = (name, none) ∨
    ∃ stem extension, stem ≠ [] ∧ '.' ∉ extension ∧ name = stem ++ '.' :: extension := by
  rcases hcut : Text.cut '.' name.reverse with ⟨extension, _ | stem⟩
  · left
    rw [cutExtension, hcut]
  · by_cases hstem : stem = []
    · left
      simp only [cutExtension, hcut, if_pos hstem]
    · right
      refine ⟨stem.reverse, extension.reverse, by simpa using hstem, ?_, ?_⟩
      · rw [List.mem_reverse]
        simpa [hcut] using Text.notMem_cut '.' name.reverse
      · simpa using congrArg List.reverse (Text.cut_eq_some hcut)

/-- A stem and an extension make a name. -/
theorem isName_append (hstem : stem ≠ []) (hslash : '/' ∉ stem) (hne : extension ≠ [])
    (hext : '/' ∉ extension) : IsName (stem ++ '.' :: extension) := by
  obtain ⟨c, stem, rfl⟩ := List.exists_cons_of_ne_nil hstem
  obtain ⟨d, extension, rfl⟩ := List.exists_cons_of_ne_nil hne
  refine ⟨⟨by simp, by simp_all, by simp⟩, fun hdots => ?_⟩
  have hlength := congrArg List.length hdots
  simp at hlength
  omega

/-- **Two dots with a plain extension behind them,** at the end of the path. -/
def IsDotStemmed (p : Path) : Prop :=
  ∃ front extension, p = front ++ '.' :: '.' :: extension ∧ IsFront front ∧ extension ≠ [] ∧
    '.' ∉ extension ∧ '/' ∉ extension

/-- The old extension goes from the end of the path: what is left there is a name of the same stem,
or the name was two dots and an extension. -/
theorem Spelled.exists_shorter (h : Spelled p front name tail) (hp : ¬ IsDotStemmed p) :
    ∃ name' tail', Spelled (p.take (p.length - (p.extension?.getD []).length)) front name' tail' ∧
      (cutExtension name').1 = (cutExtension name).1 := by
  rw [extension?, h.fileName?_eq, Option.bind_some]
  obtain hcut | ⟨stem, extension, hstem, hdot, rfl⟩ := cutExtension_cases name
  · rw [hcut]
    exact ⟨name, tail, by simpa using h, by rw [hcut]⟩
  have hslash : '/' ∉ stem ∧ '/' ∉ extension := by simpa using h.name.slash
  rw [cutExtension_append hstem hdot, Option.getD_some]
  have htake : p.take (p.length - extension.length) =
      front ++ (stem ++ '.' :: (extension ++ tail).take tail.length) := by
    have hp : p = (front ++ (stem ++ ['.'])) ++ (extension ++ tail) := by simp [h.eq]
    have hlength : p.length - extension.length =
        (front ++ (stem ++ ['.'])).length + tail.length := by
      rw [hp]
      simp only [List.length_append]
      omega
    rw [hlength, hp, List.take_length_add_append]
    simp
  rw [htake]
  -- the characters that go are those of the tail first
  rcases Nat.lt_or_ge tail.length extension.length with hlt | hge
  · have hshort : (extension ++ tail).take tail.length = extension.take tail.length :=
      List.take_append_of_le_length hlt.le
    have hdot' : '.' ∉ extension.take tail.length := fun hmem => hdot (List.mem_of_mem_take hmem)
    rw [hshort]
    refine ⟨stem ++ '.' :: extension.take tail.length, [], ⟨by simp, h.front, ?_, isTail_nil⟩, ?_⟩
    · refine ⟨⟨by simp, ?_, by simp [List.append_eq_singleton_iff, hstem]⟩, fun hdots => ?_⟩
      · have hslash' : '/' ∉ extension.take tail.length := fun hmem =>
          hslash.2 (List.mem_of_mem_take hmem)
        simp [hslash.1, hslash']
      · obtain ⟨d, stem, rfl⟩ := List.exists_cons_of_ne_nil hstem
        have hlength := congrArg List.length hdots
        simp only [List.length_append, List.length_cons, List.length_take, List.length_nil]
          at hlength
        obtain rfl : stem = [] := List.length_eq_zero_iff.mp (by omega)
        obtain rfl : tail = [] := List.length_eq_zero_iff.mp (by omega)
        obtain rfl : d = '.' := by simpa using hdots
        exact hp ⟨front, extension, by simp [h.eq], h.front, List.length_pos_iff.mp hlt, hdot,
          hslash.2⟩
    · rw [cutExtension_append hstem hdot']
  · refine ⟨_, tail.take (tail.length - extension.length),
      ⟨?_, h.front, h.name, h.tail.of_isPrefix (List.take_prefix ..)⟩,
      by rw [cutExtension_append hstem hdot]⟩
    rw [List.take_append, List.take_of_length_le hge, List.append_assoc, List.cons_append]

/-- **Another extension stands behind the same stem,** in place of the name and the tail. -/
theorem Spelled.withExtension_eq (h : Spelled p front name tail) (hp : ¬ IsDotStemmed p)
    (extension : Text) :
    p.withExtension extension = front ++ ((cutExtension name).1 ++ '.' :: extension) := by
  obtain ⟨name', tail', hshorter, hstem⟩ := h.exists_shorter hp
  rw [withExtension, hshorter.putExtension_eq, hstem]

/-- **Nothing but two dots is left** of two dots with an extension, whatever the new one. -/
theorem components_withExtension_of_isDotStemmed (hp : IsDotStemmed p) (extension : Text) :
    components (p.withExtension extension) = (components p).dropLast ++ [.parent] := by
  obtain ⟨front, old, rfl, hfront, hne, hdot, hslash⟩ := hp
  have hspelled : Spelled (front ++ '.' :: '.' :: old) front (['.'] ++ '.' :: old) [] :=
    ⟨by simp, hfront, isName_append (List.cons_ne_nil _ _) (by decide) hne hslash, isTail_nil⟩
  have hstep : IsStep ['.', '.'] := ⟨by simp, by simp, by simp⟩
  have hdots : components (front ++ ['.', '.']) = components front ++ [.parent] :=
    components_append hfront hstep isTail_nil
  have hnone : fileName? (front ++ ['.', '.']) = none := by
    rw [fileName?, hdots, List.getLast?_concat]
  have htake : (front ++ '.' :: '.' :: old).take
      ((front ++ '.' :: '.' :: old).length - old.length) = front ++ ['.', '.'] := by
    have hassoc : front ++ '.' :: '.' :: old = (front ++ ['.', '.']) ++ old := by simp
    rw [hassoc, List.length_append, Nat.add_sub_cancel, List.take_left]
  rw [withExtension, extension?, hspelled.fileName?_eq, Option.bind_some,
    cutExtension_append (List.cons_ne_nil _ _) hdot, Option.getD_some, htake, putExtension, hnone,
    hspelled.components_eq, List.dropLast_concat]
  exact hdots

end Extensions

end Path

end Smalltalk
