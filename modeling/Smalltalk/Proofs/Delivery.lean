import Smalltalk.Proofs.Preservation

/-! # Scripts that a conversion delivers

If a run succeeds, the script of every input was written to its destination. It is still there after
the run unless a script that was written later has taken its place, and it is the script of what the
input held before the run unless an earlier script has changed that. The checks refuse both without
force; with force they refuse neither, since each input is compared with its own output only.

* `ConvertArguments.stem_ok`: the stem of an input is a name, so its script goes below the output.
* `ConvertArguments.Converted.takesScripts`: once a script is written below the output, the output
  is a directory. So a run that succeeds sends every script where the first world says.
* `run_delivers`: what a successful run delivers. `run_loses_script` shows two inputs of one
  stem. -/

namespace Smalltalk

/-! ### Stems -/

namespace Path

variable {p : Path} {name : Text}

theorem mem_segments_of_fileName? (h : p.fileName? = some name) : name ∈ p.segments := by
  have hlast : p.components.getLast? = some (.normal name) := by
    unfold fileName? at h
    split at h
    · next heq => rw [heq, Option.some.inj h]
    · cases h
  have hmem := List.mem_of_getLast? hlast
  have hbody : .normal name ∈ (p.segments.filter (· ≠ ['.'])).map component := by
    unfold components at hmem
    grind
  obtain ⟨segment, hsegment, heq⟩ := List.mem_map.mp hbody
  have hname : segment = name := by
    unfold component at heq
    split at heq
    · cases heq
    · exact Component.normal.inj heq
  exact hname ▸ (List.mem_filter.mp hsegment).1

/-- The part before the last dot is a front part of the name, and not empty. -/
theorem cutExtension_isPrefix (h : name ≠ []) :
    (cutExtension name).1 <+: name ∧ (cutExtension name).1 ≠ [] := by
  unfold cutExtension
  split
  · exact ⟨List.prefix_rfl, h⟩
  · next extension stem hcut =>
    split
    · exact ⟨List.prefix_rfl, h⟩
    · next hstem =>
      have hname : name = stem.reverse ++ '.' :: extension.reverse := by
        simpa using congrArg List.reverse (Text.cut_eq_some hcut)
      refine ⟨⟨'.' :: extension.reverse, hname.symm⟩, ?_⟩
      simpa using hstem

end Path

namespace ConvertArguments

open World

variable {a : ConvertArguments} {settings : ConvertSettings} {input path : Path} {w w' : World}
  {k : Location} {c : Content}

/-- **The stem of an input is a name:** it is not empty and has no slash. -/
theorem stem_ok {s : Text} (h : stem input = .ok s) : s ≠ [] ∧ '/' ∉ s := by
  unfold stem at h
  split at h
  · obtain rfl := Except.ok.inj h
    decide
  · rcases hs : input.fileStem? with _ | front <;> rw [hs] at h
    · cases h
    · obtain rfl := Except.ok.inj h
      obtain ⟨name, hname, rfl⟩ := Option.map_eq_some_iff.mp hs
      have hmem := Path.mem_segments_of_fileName? hname
      obtain ⟨hfront, hne⟩ := Path.cutExtension_isPrefix (Path.ne_nil_of_mem_segments hmem)
      exact ⟨hne, fun hslash => Path.slash_notMem_of_mem_segments hmem (hfront.subset hslash)⟩

/-! ### Destinations during a run -/

/-- Outputs that take several scripts give every input the same destination. -/
theorem destination_eq_of_takesScripts (h : a.TakesScripts w) (h' : a.TakesScripts w')
    (extension : Text) (input : Path) :
    (w'.run (a.destination extension input)).1 = (w.run (a.destination extension input)).1 := by
  rw [run_destination, run_destination]
  rcases ho : a.output with _ | output
  · rfl
  · by_cases hne : output = Path.standard
    · simp [destinationIn, hne]
    · have hd := h output ho hne
      have hd' := h' output ho hne
      simp [hd, hd']

/-- **A script that is written below the output** makes it a directory. -/
theorem Converted.takesScripts (h : Converted a settings input w (.ok ()) w')
    (ht : a.TakesScripts w) : a.TakesScripts w' := by
  cases h with
  | printed hp => exact ht
  | written hp hgrown hw =>
    next script path t t' =>
    intro output ho hne
    by_cases hnil : output = []
    · rw [hnil]
      rfl
    have hdest := hp.destination_eq
    rw [run_destination, ho] at hdest
    simp only [Option.map_some, Option.getD_some, ht output ho hne, destinationIn, if_neg hne,
      if_true] at hdest
    rcases hs : stem input with e | s <;> rw [hs] at hdest
    · cases hdest
    · obtain rfl : output.join (s ++ '.' :: settings.extension) = path :=
        Destination.file.inj (Except.ok.inj hdest)
      obtain ⟨hsne, hslash⟩ := stem_ok hs
      obtain ⟨d, s, rfl⟩ := List.exists_cons_of_ne_nil hsne
      have habs : Path.isAbsolute (d :: s ++ '.' :: settings.extension) = false := by
        have hd : d ≠ '/' := fun hd => hslash (hd ▸ List.mem_cons_self)
        simpa [Path.isAbsolute] using hd
      obtain ⟨m, hfind⟩ :=
        FileTree.exists_find_of_locate_join hnil (List.cons_ne_nil _ _) habs hw.locate
      have hstatus := FileTree.status_of_directory_mono hw.within hfind
      unfold isDirectoryIn
      dsimp only
      rw [hstatus]

/-! ### Runs that succeed -/

/-- Whether a command succeeds with a given result can be decided. -/
instance {ε α : Type} [DecidableEq α] (r : Except ε α) (x : α) : Decidable (r = .ok x) :=
  match r with
  | .ok y => decidable_of_iff (y = x) ⟨congrArg Except.ok, Except.ok.inj⟩
  | .error _ => .isFalse nofun

theorem converted_of_run (h : w.run (a.runInput settings input) = (.ok (), w')) :
    Converted a settings input w (.ok ()) w' := by
  have hc := converted_runInput a settings input w
  rw [h] at hc
  exact hc

variable {inputs : List Path}

theorem later_of_completes (h : Completes (a.runInput settings) w inputs w') : w.Later w' := by
  induction h with
  | done => exact .refl _
  | input hrun _ ih => exact (converted_of_run hrun).later.trans ih

theorem takesScripts_of_completes (h : Completes (a.runInput settings) w inputs w')
    (ht : a.TakesScripts w) : a.TakesScripts w' := by
  induction h with
  | done => exact ht
  | input hrun _ ih => exact ih ((converted_of_run hrun).takesScripts ht)

theorem destination_of_completes (h : Completes (a.runInput settings) w inputs w')
    (ht : inputs ≠ [] → a.TakesScripts w) (extension : Text) (input : Path) :
    (w'.run (a.destination extension input)).1 = (w.run (a.destination extension input)).1 := by
  by_cases hnil : inputs = []
  · rw [hnil] at h
    cases h
    rfl
  · exact destination_eq_of_takesScripts (ht hnil) (takesScripts_of_completes h (ht hnil)) ..

theorem Spares.later (h : Spares a settings input w k) (hl : w.Later w') (ht : a.TakesScripts w)
    (ht' : a.TakesScripts w') (hk : w'.tree.get? k = some (.file c)) :
    Spares a settings input w' k := by
  intro path hpath
  rw [destination_eq_of_takesScripts ht ht'] at hpath
  exact (h path hpath).later hl hk

/-- **What inputs keep whose work succeeds.** -/
theorem get?_of_completes (h : Completes (a.runInput settings) w inputs w')
    (hwf : w.tree.WellFormed) (ht : inputs ≠ [] → a.TakesScripts w)
    (hs : ∀ input ∈ inputs, Spares a settings input w k)
    (hk : w.tree.get? k = some (.file c)) : w'.tree.get? k = some (.file c) := by
  induction h with
  | done => exact hk
  | @input w w₁ w₂ input inputs hrun _ ih =>
    have hc := converted_of_run hrun
    have htakes := ht (List.cons_ne_nil _ _)
    have htakes₁ := hc.takesScripts htakes
    have hk₁ := hc.get?_of_spares (hs input List.mem_cons_self) hwf hk
    refine ih (hc.later.wellFormed hwf) (fun _ => htakes₁) (fun other hother => ?_) hk₁
    exact (hs other (List.mem_cons_of_mem _ hother)).later hc.later htakes htakes₁ hk₁

/-- Work that succeeds on an input leaves its script at its destination. -/
theorem Converted.find_destination {source : Source}
    (h : Converted a settings input w (.ok ()) w')
    (hdest : (w.run (a.destination settings.extension input)).1 = .ok (.file path))
    (hsource : (w.run (Command.readSource input)).1 = .ok source) :
    ∃ script, render source.content = .ok script ∧
      w'.tree.find w.here path = .ok (path.location w.here, .file (.text script)) := by
  cases h with
  | printed hp =>
    have hno := hp.destination_eq.symm.trans hdest
    cases hno
  | written hp ht hw =>
    next script written t t' =>
    obtain rfl : written = path :=
      Destination.file.inj (Except.ok.inj (hp.destination_eq.symm.trans hdest))
    obtain ⟨source', hsource', hscript⟩ := hp.script_eq
    obtain rfl : source' = source := Except.ok.inj (hsource'.symm.trans hsource)
    exact ⟨script, hscript, hw.find_self⟩

/-- A source is read again as long as its file is kept. -/
theorem readSource_of_later {source : Source} (hl : w.Later w')
    (h : (w.run (Command.readSource input)).1 = .ok source)
    (hkeep : input ≠ Path.standard → ∀ content,
      w.tree.get? (input.location w.here) = some (.file content) →
        w'.tree.get? (input.location w.here) = some (.file content)) :
    (w'.run (Command.readSource input)).1 = .ok source := by
  rw [readSource_ok] at h ⊢
  rw [hl.here, hl.input]
  refine h.imp id ?_
  rintro ⟨hne, hname, l, hfind⟩
  obtain ⟨hlocate, hget, -⟩ := FileTree.find_ok.mp hfind
  obtain rfl := FileTree.eq_location_of_locate hlocate
  exact ⟨hne, hname, _, FileTree.find_mono hl.within hfind (hkeep hne _ hget)⟩

end ConvertArguments

open ConvertArguments

variable {w : World} {a : ConvertArguments} {settings : Settings}

/-- **A successful run delivers the script of an input:** it is the script of what the input held
before the run, and it is found at the destination after the run, as far as the checks keep the
earlier scripts from the input and the later ones from the destination. Without force that asks only
that their ways there are straight; with force, that they end elsewhere. -/
theorem run_delivers {front back : List Path} {input path : Path} {source : Source}
    (hwf : w.tree.WellFormed) (hrun : (w.run (a.run settings)).1 = .ok ())
    (hinputs : a.inputs = front ++ input :: back)
    (hdest : (w.run (a.destination settings.convert.extension input)).1 = .ok (.file path))
    (hsource : (w.run (Command.readSource input)).1 = .ok source)
    (hfront : input ≠ Path.standard → ∀ earlier ∈ front,
      Spares a (settings.convertWith a.force) earlier w (input.location w.here))
    (hback : ∀ later ∈ back,
      Spares a (settings.convertWith a.force) later w (path.location w.here)) :
    ∃ script, render source.content = .ok script ∧
      (w.run (a.run settings)).2.tree.readText w.here path = .ok script := by
  obtain ⟨htakes, hcompletes⟩ := completes_of_run hrun
  rw [hinputs] at htakes hcompletes
  have htakesFront : front ≠ [] → a.TakesScripts w := by
    intro hne
    have := List.length_pos_iff.mpr hne
    exact htakes (by simp; omega)
  have htakesBack : back ≠ [] → a.TakesScripts w := by
    intro hne
    have := List.length_pos_iff.mpr hne
    exact htakes (by simp; omega)
  generalize (w.run (a.run settings)).2 = w' at hcompletes ⊢
  obtain ⟨w₁, hbefore, hrest⟩ := hcompletes.exists_of_append
  rcases hrest with _ | @⟨_, w₂, _, _, _, hinput, hafter⟩
  have hconverted := converted_of_run hinput
  have hl₁ := later_of_completes hbefore
  have hl₂ := hconverted.later
  -- before the work on the input nothing has changed that it asks for
  have hdest₁ := (destination_of_completes hbefore htakesFront _ input).trans hdest
  have hsource₁ : (w₁.run (Command.readSource input)).1 = .ok source :=
    readSource_of_later hl₁ hsource fun hne _ hget =>
      get?_of_completes hbefore hwf htakesFront (hfront hne) hget
  obtain ⟨script, hscript, hfind⟩ := hconverted.find_destination hdest₁ hsource₁
  refine ⟨script, hscript, ?_⟩
  -- behind it the script is kept
  rw [hl₁.here] at hfind
  have hget := (FileTree.find_ok.mp hfind).2.1
  have htakes₂ : back ≠ [] → a.TakesScripts w₂ := fun hne =>
    hconverted.takesScripts (takesScripts_of_completes hbefore (htakesBack hne))
  have hspares : ∀ later ∈ back,
      Spares a (settings.convertWith a.force) later w₂ (path.location w.here) := by
    intro later hlater
    have hne := List.ne_nil_of_mem hlater
    exact (hback later hlater).later (hl₁.trans hl₂) (htakesBack hne) (htakes₂ hne) hget
  have hget' := get?_of_completes hafter (hl₂.wellFormed (hl₁.wellFormed hwf)) htakes₂ hspares hget
  have hfind' := FileTree.find_mono (later_of_completes hafter).within hfind hget'
  rw [FileTree.readText, hfind']
  rfl

/-- With force, scripts that go to different places do not disturb each other. -/
theorem run_delivers_by_force :
    let w : World := { tree := ⟨[(["a.st".toList], .file (.text ['1'])),
      (["b.st".toList], .file (.text ['='])), (["c.st".toList], .file (.text ['2']))]⟩ }
    let a : ConvertArguments :=
      { inputs := ["a.st".toList, "b.st".toList, "c.st".toList], output := some "out".toList,
        force := true }
    ∃ script, render ['='] = .ok script ∧
      (w.run (a.run {})).2.tree.readText w.here "out/b.js".toList = .ok script := by
  intro w a
  have hinputs : a.inputs = ["a.st".toList] ++ "b.st".toList :: ["c.st".toList] := rfl
  have hsource : (w.run (Command.readSource "b.st".toList)).1 =
      .ok ⟨"b.st".toList, ['=']⟩ := rfl
  refine run_delivers (by decide) (by decide +kernel) hinputs rfl hsource ?_ ?_
  · intro _ earlier hearlier path hpath hloc
    obtain rfl := List.mem_singleton.mp hearlier
    obtain rfl : "out/a.js".toList = path := Destination.file.inj (Except.ok.inj hpath)
    exact absurd hloc (by decide)
  · intro later hlater path hpath hloc
    obtain rfl := List.mem_singleton.mp hlater
    obtain rfl : "out/c.js".toList = path := Destination.file.inj (Except.ok.inj hpath)
    exact absurd hloc (by decide)

/-- With force, the second of two inputs of one stem takes the place of the first. -/
theorem run_loses_script :
    let w : World := { tree := ⟨[(["x".toList], .directory),
      (["x".toList, "a.st".toList], .file (.text ['='])), (["y".toList], .directory),
      (["y".toList, "a.st".toList], .file (.text ['1']))]⟩ }
    let a : ConvertArguments :=
      { inputs := ["x/a.st".toList, "y/a.st".toList], output := some "out".toList, force := true }
    w.tree.WellFormed ∧ (w.run (a.run {})).1 = .ok () ∧
      (w.run (a.destination ['j', 's'] "x/a.st".toList)).1 = .ok (.file "out/a.js".toList) ∧
      render ['='] = .ok ['=', '='] ∧
      (w.run (a.run {})).2.tree.get? ["out".toList, "a.js".toList] = some (.file (.text ['1'])) :=
  ⟨by decide, by decide +kernel, rfl, by decide +kernel, by decide +kernel⟩

end Smalltalk
