import Smalltalk.FileTree

/-! # Where paths lead in a file tree

The names of a path alone decide at which location it ends, `Path.location`; the directories on the
way decide whether it leads there at all. A tree that only gets more directories keeps every way
that there was, and it may open new ones: `new/../a` leads nowhere as long as there is no `new`, and
to `a` once there is one. A path is `FileTree.Straight` if it has no such detour, that is, if it
goes up only from directories that are there; a path that never goes up is straight,
`FileTree.straight_of_notMem`.

* `FileTree.WellFormed`: everything is found in a directory. Creating and writing keep this.
* `FileTree.locate_mono`: a path leads where it led as long as no directory is lost.
* `FileTree.Grown`: all that creating directories can do to a tree.
* `FileTree.locate_of_grown`: **new directories do not open a way to old things** for a straight
  path. -/

namespace Smalltalk

/-! ### Names of a path -/

namespace Path

/-- The location where a path starts. -/
def origin (here : Location) (p : Path) : Location := if p.isAbsolute then [] else here

/-- **The location that the names of a path spell,** whatever is found on the way. -/
def location (here : Location) (p : Path) : Location :=
  p.segments.foldl FileTree.step (p.origin here)

/-- The path is one that the system follows at all. -/
def CanFollow (p : Path) : Prop :=
  '\x00' ∉ p ∧ p ≠ [] ∧ p.byteLength ≤ FileTree.maxPathLength

theorem segments_ne_nil {p : Path} (h : p ≠ []) (hp : p.isAbsolute = false) : p.segments ≠ [] := by
  obtain ⟨c, t, rfl⟩ := List.exists_cons_of_ne_nil h
  have hc : c ≠ '/' := by
    intro hc
    rw [hc] at hp
    cases hp
  have hsplit : ∃ part parts, Text.splitAll '/' (c :: t) = (c :: part) :: parts := by
    rw [Text.splitAll, if_neg hc]
    rcases Text.splitAll '/' t with _ | ⟨part, parts⟩
    · exact ⟨[], [], rfl⟩
    · exact ⟨part, parts, rfl⟩
  obtain ⟨part, parts, hsplit⟩ := hsplit
  rw [segments, hsplit]
  exact List.cons_ne_nil _ _

theorem ne_nil_of_mem_segments {p : Path} {name : Text} (h : name ∈ p.segments) : name ≠ [] := by
  simpa using (List.mem_filter.mp h).2

theorem slash_notMem_of_mem_segments {p : Path} {name : Text} (h : name ∈ p.segments) :
    '/' ∉ name :=
  Text.notMem_of_mem_splitAll (List.mem_filter.mp h).1

theorem segments_append_slash (p q : Path) :
    segments (p ++ '/' :: q) = segments p ++ segments q := by
  rw [segments, Text.splitAll_append, List.filter_append]
  rfl

section Join

variable {p q : Path} (hp : p ≠ []) (hq : q.isAbsolute = false)
include hp hq

theorem segments_join : (p.join q).segments = p.segments ++ q.segments := by
  unfold join
  rw [if_neg (by simp [hp, hq])]
  split
  · next hslash =>
    obtain ⟨r, rfl⟩ := List.getLast?_eq_some_iff.mp (of_decide_eq_true hslash)
    have hnil : segments [] = [] := rfl
    rw [List.append_assoc, List.singleton_append, segments_append_slash, segments_append_slash,
      hnil, List.append_nil]
  · exact segments_append_slash p q

theorem isPrefix_join : p <+: p.join q := by
  unfold join
  rw [if_neg (by simp [hp, hq])]
  split <;> exact List.prefix_append ..

theorem isAbsolute_join : (p.join q).isAbsolute = p.isAbsolute := by
  obtain ⟨r, hr⟩ := isPrefix_join hp hq
  obtain ⟨c, s, rfl⟩ := List.exists_cons_of_ne_nil hp
  rw [← hr]
  rfl

theorem canFollow_of_join (h : (p.join q).CanFollow) : p.CanFollow := by
  obtain ⟨r, hr⟩ := isPrefix_join hp hq
  obtain ⟨hnul, -, hlong⟩ := h
  rw [← hr] at hnul hlong
  rw [Text.byteLength_append] at hlong
  exact ⟨fun hmem => hnul (List.mem_append_left r hmem), hp, by omega⟩

end Join

end Path

namespace FileTree

variable {t t' : FileTree} {here l k : Location} {p : Path} {names : List Text}

/-! ### Following names -/

theorem expectDirectory_ok : t.expectDirectory l = .ok () ↔ t.get? l = some .directory := by
  unfold expectDirectory
  split <;> simp_all

theorem follow_cons_ok {name : Text} :
    t.follow l (name :: names) = .ok k ↔ t.get? l = some .directory ∧
      name.byteLength ≤ maxNameLength ∧ t.follow (step l name) names = .ok k := by
  rw [follow]
  rcases hd : t.expectDirectory l with e | u
  · have hl : ¬ t.get? l = some .directory := by
      rw [← expectDirectory_ok, hd]
      exact nofun
    simp [hl, bind, Except.bind]
  · have hl : t.get? l = some .directory := expectDirectory_ok.mp hd
    by_cases hname : maxNameLength < name.byteLength
    · simp [hl, hname, bind, Except.bind, Nat.not_le.mpr hname]
    · simp [hl, hname, bind, Except.bind, Nat.le_of_not_lt hname]

theorem follow_append_ok {back : List Text} :
    t.follow l (names ++ back) = .ok k ↔
      ∃ m, t.follow l names = .ok m ∧ t.follow m back = .ok k := by
  induction names generalizing l with
  | nil => simp [follow]
  | cons name names ih =>
    simp only [List.cons_append, follow_cons_ok, ih]
    grind

/-- Names alone decide where they lead. -/
theorem eq_foldl_of_follow (h : t.follow l names = .ok k) : k = names.foldl step l := by
  induction names generalizing l with
  | nil => exact (Except.ok.inj h).symm
  | cons name names ih => exact ih (follow_cons_ok.mp h).2.2

/-- What names start from is there, if what they lead to is. -/
theorem isSome_of_follow (h : t.follow l names = .ok k) (hk : (t.get? k).isSome) :
    (t.get? l).isSome := by
  cases names with
  | nil => rw [← Except.ok.inj h] at hk; exact hk
  | cons name names => rw [(follow_cons_ok.mp h).1]; rfl

theorem locate_ok : t.locate here p = .ok l ↔
    p.CanFollow ∧ t.follow (p.origin here) p.segments = .ok l := by
  unfold locate walk Path.CanFollow Path.origin
  by_cases hnul : '\x00' ∈ p
  · simp [hnul]
  by_cases hnil : p = []
  · simp [hnil]
  by_cases hlong : maxPathLength < p.byteLength
  · simp [hnul, hnil, hlong, Nat.not_le.mpr hlong]
  · simp [hnul, hnil, hlong, Nat.le_of_not_lt hlong]

theorem eq_location_of_locate (h : t.locate here p = .ok l) : l = p.location here :=
  eq_foldl_of_follow (locate_ok.mp h).2

/-- What is found at a path: a file only if the path does not end with a slash. -/
theorem find_ok {e : FileEntry} : t.find here p = .ok (l, e) ↔
    t.locate here p = .ok l ∧ t.get? l = some e ∧ (e ≠ .directory → p.endsWithSlash = false) := by
  unfold find
  rcases hl : t.locate here p with x | m
  · simp [bind, Except.bind]
  · simp only [bind, Except.bind, Except.ok.injEq]
    rcases hm : t.get? m with _ | c | _
    · grind
    · cases hs : p.endsWithSlash <;> simp [pure, Except.pure] <;> grind
    · simp [pure, Except.pure]
      grind

theorem status_ne_none {e : FileEntry} (h : t.find here p = .ok (l, e)) :
    t.status here p ≠ none := by
  unfold status
  rw [h]
  cases e <;> exact nofun

/-- **Above what a path leads to is a directory.** -/
theorem exists_find_of_locate_join {q : Path} (hp : p ≠ []) (hq : q ≠ [])
    (habs : q.isAbsolute = false) (h : t.locate here (p.join q) = .ok l) :
    ∃ m, t.find here p = .ok (m, .directory) := by
  obtain ⟨hfollow, h⟩ := locate_ok.mp h
  rw [Path.segments_join hp habs, Path.origin, Path.isAbsolute_join hp habs, follow_append_ok] at h
  obtain ⟨m, hm, hback⟩ := h
  obtain ⟨name, names, hnames⟩ := List.exists_cons_of_ne_nil (Path.segments_ne_nil hq habs)
  rw [hnames, follow_cons_ok] at hback
  have hlocate := locate_ok.mpr ⟨Path.canFollow_of_join hp habs hfollow, hm⟩
  exact ⟨m, find_ok.mpr ⟨hlocate, hback.1, fun hne => absurd rfl hne⟩⟩

/-! ### Trees with more directories -/

/-- Every directory of one tree is a directory of the other. -/
def Within (t t' : FileTree) : Prop :=
  ∀ l, t.get? l = some .directory → t'.get? l = some .directory

theorem Within.refl (t : FileTree) : t.Within t := fun _ h => h

theorem Within.trans {t'' : FileTree} (h : t.Within t') (h' : t'.Within t'') : t.Within t'' :=
  fun l hl => h' l (h l hl)

theorem within_set {e : FileEntry} (hl : t.get? l ≠ some .directory) : t.Within (t.set l e) := by
  intro m hm
  have hml : m ≠ l := by
    rintro rfl
    exact hl hm
  rw [get?_set t e hml, hm]

theorem follow_mono (h : t.Within t') (hf : t.follow l names = .ok k) :
    t'.follow l names = .ok k := by
  induction names generalizing l with
  | nil => exact hf
  | cons name names ih =>
    obtain ⟨hd, hname, hrest⟩ := follow_cons_ok.mp hf
    exact follow_cons_ok.mpr ⟨h l hd, hname, ih hrest⟩

/-- **A path leads where it led** as long as no directory is lost. -/
theorem locate_mono (h : t.Within t') (hl : t.locate here p = .ok l) :
    t'.locate here p = .ok l := by
  obtain ⟨hp, hf⟩ := locate_ok.mp hl
  exact locate_ok.mpr ⟨hp, follow_mono h hf⟩

/-- A path that leads to something finds the file that is there now. -/
theorem find_mono {e : FileEntry} {c : Content} (h : t.Within t') (hf : t.find here p = .ok (l, e))
    (hc : t'.get? l = some (.file c)) : t'.find here p = .ok (l, .file c) := by
  obtain ⟨hl, he, hs⟩ := find_ok.mp hf
  have hfile : e ≠ .directory := by
    rintro rfl
    rw [h l he] at hc
    cases hc
  exact find_ok.mpr ⟨locate_mono h hl, hc, fun _ => hs hfile⟩

theorem status_of_directory_mono (h : t.Within t') (hf : t.find here p = .ok (l, .directory)) :
    t'.status here p = some .directory := by
  obtain ⟨hl, hd, hs⟩ := find_ok.mp hf
  have hf' : t'.find here p = .ok (l, .directory) := find_ok.mpr ⟨locate_mono h hl, h l hd, hs⟩
  rw [status, hf']

/-! ### Everything is in a directory -/

/-- Everything is found in a directory. -/
def WellFormed (t : FileTree) : Prop :=
  ∀ x ∈ t.entries, t.get? x.1.dropLast = some .directory

instance (t : FileTree) : Decidable t.WellFormed := by unfold WellFormed; infer_instance

theorem WellFormed.get?_parent {name : Text} (h : t.WellFormed)
    (hl : (t.get? (l ++ [name])).isSome) : t.get? l = some .directory := by
  have hne : l ++ [name] ≠ [] := by simp
  rw [get?, if_neg hne, Option.isSome_map, List.find?_isSome] at hl
  obtain ⟨x, hx, hxl⟩ := hl
  have hparent := h x hx
  rw [of_decide_eq_true hxl, List.dropLast_concat] at hparent
  exact hparent

theorem WellFormed.set {e : FileEntry} (h : t.WellFormed) (hl : t.get? l ≠ some .directory)
    (hp : t.get? l.dropLast = some .directory) : (t.set l e).WellFormed := by
  have hkeep : t.Within (t.set l e) := within_set hl
  intro x hx
  rcases List.mem_cons.mp hx with rfl | hx
  · exact hkeep _ hp
  · exact hkeep _ (h x (List.mem_filter.mp hx).1)

/-- What a path leads to is in a directory, unless it is one itself or the path ends with dots. -/
theorem get?_dropLast_of_locate (h : t.locate here p = .ok l) (hdots : endsWithDots p = false)
    (hl : t.get? l ≠ some .directory) : t.get? l.dropLast = some .directory := by
  obtain ⟨⟨-, hne, -⟩, hf⟩ := locate_ok.mp h
  have hseg : p.segments ≠ [] := by
    intro hnil
    cases ha : p.isAbsolute with
    | false => exact Path.segments_ne_nil hne ha hnil
    | true =>
      rw [hnil, Path.origin, if_pos ha] at hf
      exact hl (Except.ok.inj hf ▸ t.get?_nil)
  obtain ⟨names, name, hlast⟩ := List.eq_nil_or_concat p.segments |>.resolve_left hseg
  rw [List.concat_eq_append] at hlast
  rw [hlast, follow_append_ok] at hf
  obtain ⟨m, -, hm⟩ := hf
  obtain ⟨hd, -, hstep⟩ := follow_cons_ok.mp hm
  have hname : name ≠ ['.'] ∧ name ≠ ['.', '.'] := by
    simpa [endsWithDots, hlast] using hdots
  rw [step, if_neg hname.1, if_neg hname.2] at hstep
  rw [← Except.ok.inj hstep, List.dropLast_concat]
  exact hd

/-! ### Creating directories -/

/-- **All that creating directories can do to a tree:** something is a directory now where nothing
was. -/
structure Grown (t t' : FileTree) : Prop where
  get?_eq : ∀ l, t'.get? l = t.get? l ∨ t.get? l = none ∧ t'.get? l = some .directory
  wellFormed : t.WellFormed → t'.WellFormed

theorem Grown.refl (t : FileTree) : t.Grown t := ⟨fun _ => Or.inl rfl, id⟩

theorem Grown.get?_of_some {e : FileEntry} (h : t.Grown t') (hl : t.get? l = some e) :
    t'.get? l = some e := by
  rcases h.get?_eq l with heq | ⟨hnone, -⟩
  · rw [heq, hl]
  · simp [hl] at hnone

theorem Grown.within (h : t.Grown t') : t.Within t' := fun _ hl => h.get?_of_some hl

theorem Grown.trans {t'' : FileTree} (h : t.Grown t') (h' : t'.Grown t'') : t.Grown t'' := by
  refine ⟨fun l => ?_, fun ht => h'.wellFormed (h.wellFormed ht)⟩
  rcases h.get?_eq l with heq | ⟨hnone, hd⟩
  · rw [← heq]
    exact h'.get?_eq l
  · exact Or.inr ⟨hnone, h'.within l hd⟩

theorem grown_of_createDirectory (h : t.createDirectory here p = .ok t') : t.Grown t' := by
  unfold createDirectory at h
  rcases hl : t.locate here p with e | l <;> rw [hl] at h
  · cases h
  · simp only [bind, Except.bind] at h
    split at h
    · cases h
    · next hno =>
      obtain ⟨hdots, hget⟩ : endsWithDots p = false ∧ t.get? l = none := by simpa using hno
      obtain rfl : t.set l .directory = t' := Except.ok.inj h
      have hne : l ≠ [] := by
        rintro rfl
        simp [t.get?_nil] at hget
      refine ⟨fun m => ?_, fun ht => ht.set (by simp [hget]) ?_⟩
      · by_cases hm : m = l
        · rw [hm]
          exact Or.inr ⟨hget, t.get?_set_self _ hne⟩
        · exact Or.inl (t.get?_set _ hm)
      · exact get?_dropLast_of_locate hl hdots (by simp [hget])

/-! ### Writing files -/

/-- **All that writing a text does:** it stands where the path leads, and no directory was there. -/
structure Wrote (t : FileTree) (here : Location) (p : Path) (text : Text) (t' : FileTree) :
    Prop where
  not_slash : p.endsWithSlash = false
  not_dots : endsWithDots p = false
  locate : t.locate here p = .ok (p.location here)
  not_directory : t.get? (p.location here) ≠ some .directory
  eq_set : t' = t.set (p.location here) (.file (.text text))

theorem wrote_of_writeText {text : Text} (h : t.writeText here p text = .ok t') :
    t.Wrote here p text t' := by
  unfold writeText at h
  cases hs : p.endsWithSlash with
  | true =>
    rw [hs, if_pos rfl] at h
    simp only [bind, Except.bind] at h
    split at h
    · cases h
    · split at h <;> cases h
  | false =>
    rw [hs, if_neg Bool.false_ne_true] at h
    rcases hl : t.locate here p with e | l <;> rw [hl] at h
    · cases h
    · obtain rfl := eq_location_of_locate hl
      simp only [bind, Except.bind] at h
      split at h
      · cases h
      · next hno =>
        obtain ⟨hdots, hd⟩ :
            endsWithDots p = false ∧ t.get? (p.location here) ≠ some .directory := by
          simpa using hno
        exact ⟨hs, hdots, hl, hd, (Except.ok.inj h).symm⟩

namespace Wrote

variable {text : Text}

theorem get?_self (h : t.Wrote here p text t') :
    t'.get? (p.location here) = some (.file (.text text)) := by
  have hne : p.location here ≠ [] := by
    intro hnil
    exact h.not_directory (hnil ▸ t.get?_nil)
  rw [h.eq_set, t.get?_set_self _ hne]

theorem get?_of_ne (h : t.Wrote here p text t') (hl : l ≠ p.location here) :
    t'.get? l = t.get? l := by
  rw [h.eq_set, t.get?_set _ hl]

theorem within (h : t.Wrote here p text t') : t.Within t' := by
  rw [h.eq_set]
  exact within_set h.not_directory

/-- The text is found at its path. -/
theorem find_self (h : t.Wrote here p text t') :
    t'.find here p = .ok (p.location here, .file (.text text)) :=
  find_ok.mpr ⟨locate_mono h.within h.locate, h.get?_self, fun _ => h.not_slash⟩

theorem wellFormed (h : t.Wrote here p text t') (ht : t.WellFormed) : t'.WellFormed := by
  rw [h.eq_set]
  exact ht.set h.not_directory (get?_dropLast_of_locate h.locate h.not_dots h.not_directory)

end Wrote

/-! ### Straight paths -/

/-- Names that go up only from directories that are there. -/
def StraightFrom (t : FileTree) : Location → List Text → Prop
  | _, [] => True
  | l, name :: names =>
    (name = ['.', '.'] → t.get? l = some .directory) ∧ t.StraightFrom (step l name) names

/-- **A path without detours:** it goes up only from directories that are there. -/
def Straight (t : FileTree) (here : Location) (p : Path) : Prop :=
  t.StraightFrom (p.origin here) p.segments

instance decidableStraightFrom (t : FileTree) :
    (l : Location) → (names : List Text) → Decidable (t.StraightFrom l names)
  | _, [] => .isTrue trivial
  | l, name :: names =>
    have := decidableStraightFrom t (step l name) names
    inferInstanceAs (Decidable (_ ∧ _))

instance (t : FileTree) (here : Location) (p : Path) : Decidable (t.Straight here p) :=
  inferInstanceAs (Decidable (t.StraightFrom _ _))

theorem StraightFrom.mono (h : t.Within t') (hs : t.StraightFrom l names) :
    t'.StraightFrom l names := by
  induction names generalizing l with
  | nil => trivial
  | cons name names ih => exact ⟨fun hname => h l (hs.1 hname), ih hs.2⟩

/-- A path that never goes up is straight. -/
theorem straight_of_notMem (h : ['.', '.'] ∉ p.segments) : t.Straight here p := by
  unfold Straight
  generalize p.origin here = l
  generalize p.segments = names at h
  induction names generalizing l with
  | nil => trivial
  | cons name names ih =>
    rw [List.mem_cons, not_or] at h
    exact ⟨fun hname => absurd hname.symm h.1, ih _ h.2⟩

theorem follow_of_grown (ht : t.WellFormed) (hg : t.Grown t') (hs : t.StraightFrom l names)
    (h : t'.follow l names = .ok k) (hk : (t.get? k).isSome) : t.follow l names = .ok k := by
  induction names generalizing l with
  | nil => exact h
  | cons name names ih =>
    obtain ⟨hd, hname, hrest⟩ := follow_cons_ok.mp h
    have hrest' := ih hs.2 hrest
    -- what the first name leads to is there, so the place where it starts is a directory
    have hsome := isSome_of_follow hrest' hk
    refine follow_cons_ok.mpr ⟨?_, hname, hrest'⟩
    by_cases hup : name = ['.', '.']
    · exact hs.1 hup
    by_cases hstay : name = ['.']
    · rw [step, if_pos hstay] at hsome
      obtain ⟨e, he⟩ := Option.isSome_iff_exists.mp hsome
      rw [he, ← hg.get?_of_some he, hd]
    · rw [step, if_neg hstay, if_neg hup] at hsome
      exact ht.get?_parent hsome

/-- **New directories do not open a way to old things** for a straight path. -/
theorem locate_of_grown (ht : t.WellFormed) (hg : t.Grown t') (hs : t.Straight here p)
    (h : t'.locate here p = .ok k) (hk : (t.get? k).isSome) : t.locate here p = .ok k := by
  obtain ⟨hp, hf⟩ := locate_ok.mp h
  exact locate_ok.mpr ⟨hp, follow_of_grown ht hg hs hf hk⟩

end FileTree

end Smalltalk
