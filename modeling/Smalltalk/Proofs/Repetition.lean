import Smalltalk.Proofs.Delivery
import Smalltalk.Proofs.Outcomes

/-! # Running a conversion again

A run that succeeds without force leaves a file at the destination of every script, and what it
changes does not move any destination: an output that was taken for a directory is one after the
run, and one that was taken for a file is a file. So the same run is refused where it would write
again, and it prints again what it has printed.

* `ConvertArguments.SameOutput`: two worlds take the output for the same thing;
  `ConvertArguments.Converted.sameOutput` says that a script that is written keeps this.
* `ConvertArguments.isThere_of_wrote`: a script that was written is still there after the run.
* `ConvertArguments.prints_again`: so the work on an input either fails and changes nothing, or it
  prints what it has printed.
* `run_again`: hence what the same run does in the world it has left. -/

namespace Smalltalk

namespace ConvertArguments

open World

variable {a : ConvertArguments} {settings : ConvertSettings} {input path : Path} {w w' v : World}
  {inputs : List Path} {r : Except Failure Unit}

/-- The script of an input goes to a file. -/
def goesToFile (a : ConvertArguments) (extension : Text) (w : World) (input : Path) : Bool :=
  match (w.run (a.destination extension input)).1 with
  | .ok (.file _) => true
  | _ => false

/-! ### Destinations stay -/

/-- Both worlds take the output for a directory, or both for a file. -/
def SameOutput (a : ConvertArguments) (w w' : World) : Prop :=
  ∀ output, a.output = some output → output ≠ Path.standard →
    isDirectoryIn w' output = isDirectoryIn w output

theorem SameOutput.trans (h : a.SameOutput w w') (h' : a.SameOutput w' v) : a.SameOutput w v :=
  fun output ho hne => (h' output ho hne).trans (h output ho hne)

theorem SameOutput.destination_eq (h : a.SameOutput w w') (extension : Text) (input : Path) :
    (w'.run (a.destination extension input)).1 = (w.run (a.destination extension input)).1 := by
  rw [run_destination, run_destination]
  rcases ho : a.output with _ | output
  · rfl
  · by_cases hne : output = Path.standard
    · simp [destinationIn, hne]
    · simp [h output ho hne]

theorem SameOutput.validateOutput_eq (h : a.SameOutput w w') :
    (w'.run a.validateOutput).1 = (w.run a.validateOutput).1 := by
  unfold validateOutput
  rcases ho : a.output with _ | output
  · rfl
  · dsimp only
    split
    · next hmany =>
      rw [run_bind, run_bind, run_lift, run_lift, isDirectoryTarget_eq, isDirectoryTarget_eq,
        h output ho hmany.2]
      dsimp only
      split <;> rfl
    · rfl

theorem sameOutput_of_alike (h : w.Alike w') : a.SameOutput w w' := by
  intro output _ _
  rw [isDirectoryIn, h.tree, h.here]
  rfl

/-- **A script that is written** does not change what the output is taken for. -/
theorem Converted.sameOutput (h : Converted a settings input w (.ok ()) w') :
    a.SameOutput w w' := by
  intro output ho hne
  cases hd : isDirectoryIn w output with
  | true =>
    have htakes : a.TakesScripts w := by
      intro other hother _
      obtain rfl : output = other := Option.some.inj (ho.symm.trans hother)
      exact hd
    exact h.takesScripts htakes output ho hne
  | false =>
    cases h with
    | printed hp => exact hd
    | written hp ht hw =>
      next script path t t' =>
      have hdest := hp.destination_eq
      rw [run_destination, ho] at hdest
      simp only [Option.map_some, Option.getD_some, hd, destinationIn, if_neg hne,
        Bool.false_eq_true, if_false] at hdest
      obtain rfl : output = path := Destination.file.inj (Except.ok.inj hdest)
      unfold isDirectoryIn FileTree.status
      dsimp only
      rw [hw.find_self]

theorem sameOutput_of_completes (h : Completes (a.runInput settings) w inputs w') :
    a.SameOutput w w' := by
  induction h with
  | done => exact fun _ _ _ => rfl
  | input hrun _ ih => exact (converted_of_run hrun).sameOutput.trans ih

/-! ### Scripts stay -/

/-- A file stays a file, whatever it holds. -/
theorem Converted.exists_file {k : Location} {c : Content}
    (h : Converted a settings input w r w') (hk : w.tree.get? k = some (.file c)) :
    ∃ c', w'.tree.get? k = some (.file c') := by
  cases h with
  | refused => exact ⟨c, hk⟩
  | printed hp => exact ⟨c, hk⟩
  | stopped hp ht => exact ⟨c, ht.get?_of_some hk⟩
  | written hp ht hw =>
    next script path t t' =>
    by_cases hloc : k = path.location w.here
    · exact ⟨.text script, hloc ▸ hw.get?_self⟩
    · exact ⟨c, (hw.get?_of_ne hloc).trans (ht.get?_of_some hk)⟩

theorem exists_file_of_completes {k : Location} {c : Content}
    (h : Completes (a.runInput settings) w inputs w') (hk : w.tree.get? k = some (.file c)) :
    ∃ c', w'.tree.get? k = some (.file c') := by
  induction h generalizing c with
  | done => exact ⟨c, hk⟩
  | input hrun _ ih =>
    obtain ⟨c', hk'⟩ := (converted_of_run hrun).exists_file hk
    exact ih hk'

/-- **A script that was written is still there** after the work on further inputs. -/
theorem isThere_of_wrote {script : Text} {t t' : FileTree} (hw : t.Wrote w.here path script t')
    (h : Completes (a.runInput settings) { w with tree := t' } inputs w') :
    w'.tree.status w'.here path = some .file := by
  have hl := later_of_completes h
  obtain ⟨c, hget⟩ := exists_file_of_completes h hw.get?_self
  have hfind := FileTree.find_mono hl.within hw.find_self hget
  rw [FileTree.status, hl.here, hfind]

/-! ### Scripts that are printed -/

theorem destination_standardOutput {extension : Text}
    (h : (w.run (a.destination extension input)).1 = .ok .standardOutput) :
    a.output = some Path.standard ∨ input = Path.standard := by
  rw [run_destination] at h
  unfold destinationIn at h
  rcases ho : a.output with _ | output <;> rw [ho] at h
  · by_cases hin : input = Path.standard
    · exact Or.inr hin
    · simp [hin] at h
  · by_cases hout : output = Path.standard
    · exact Or.inl (congrArg some hout)
    · dsimp only at h
      rw [if_neg hout] at h
      split at h
      · rcases hs : stem input with f | s <;> rw [hs] at h <;> cases h
      · cases h

/-- Nothing is written if everything is printed. -/
theorem tree_of_completes (h : Completes (a.runInput settings) w inputs w')
    (ho : a.output = some Path.standard) : w'.tree = w.tree := by
  induction h with
  | done => rfl
  | input hrun _ ih =>
    refine ih.trans ?_
    cases converted_of_run hrun with
    | printed hp => rfl
    | written hp ht hw =>
      have hdest := hp.destination_eq
      rw [run_destination, ho] at hdest
      simp [destinationIn] at hdest

/-- **What was printed can be read again** after the work on further inputs: either it is standard
input, or nothing was written at all. -/
theorem readSource_of_printed {source : Source}
    (hprinted : a.output = some Path.standard ∨ input = Path.standard)
    (hsource : (w.run (Command.readSource input)).1 = .ok source)
    (h : Completes (a.runInput settings) v inputs w') (hv : w.Alike v) :
    (w'.run (Command.readSource input)).1 = .ok source := by
  have hsource' := (hv.readSource_eq input).trans hsource
  refine readSource_of_later (later_of_completes h) hsource' fun hne content hget => ?_
  rw [tree_of_completes h (hprinted.resolve_right hne)]
  exact hget

/-! ### The same work again -/

theorem run_runInput_of_isThere (hforce : settings.force = false)
    (hdest : (v.run (a.destination settings.extension input)).1 = .ok (.file path))
    (hthere : v.tree.status v.here path = some .file) :
    ∃ f, v.run (a.runInput settings input) = (.error f, v) := by
  rcases hp : (v.run (a.prepare settings input)).1 with f | ⟨script, destination⟩
  · exact ⟨f, run_runInput_of_prepare hp⟩
  · have hprepared := prepared_of_prepare hp
    obtain rfl : destination = .file path :=
      Except.ok.inj (hprepared.destination_eq.symm.trans hdest)
    have hnone := (hprepared.mayWrite path rfl).not_there hforce
    rw [hthere] at hnone
    cases hnone

theorem run_runInput_of_standardOutput {source : Source} {script : Text}
    (hdest : (v.run (a.destination settings.extension input)).1 = .ok .standardOutput)
    (hsource : (v.run (Command.readSource input)).1 = .ok source)
    (hscript : render source.content = .ok script) :
    v.run (a.runInput settings input) = (.ok (), { v with output := v.output ++ script }) := by
  have hd : v.run (a.destination settings.extension input) = (.ok .standardOutput, v) :=
    Prod.ext hdest (asks_destination _ _ v)
  have hs : v.run (Command.readSource input) = (.ok source, v) :=
    Prod.ext hsource (asks_readSource input v)
  have hr : scriptOf source = .ok script := by
    rw [scriptOf, hscript]
    rfl
  simp only [runInput, prepare_eq, run_bind, hd, hs, checkDestination, run_pure, run_except, hr]
  rfl

/-- An input of a run was worked on with the output taken for what it is taken before the run. -/
theorem exists_converted_of_mem (h : Completes (a.runInput settings) w inputs w')
    (hin : input ∈ inputs) :
    ∃ w₁ w₂ back, a.SameOutput w w₁ ∧ Converted a settings input w₁ (.ok ()) w₂ ∧
      Completes (a.runInput settings) w₂ back w' := by
  obtain ⟨front, back, rfl⟩ := List.append_of_mem hin
  obtain ⟨w₁, hfront, hrest⟩ := h.exists_of_append
  cases hrest with
  | input hrun hback =>
    exact ⟨w₁, _, back, sameOutput_of_completes hfront, converted_of_run hrun, hback⟩

/-- What is printed for an input in the world that a run has left: nothing if its script goes to a
file, and else the script. -/
def printedAgain? (a : ConvertArguments) (extension : Text) (w w' : World) (input : Path) :
    Option Text :=
  if a.goesToFile extension w input then none
  else (w'.run (Command.readSource input)).1.toOption.bind fun source =>
    (render source.content).toOption

/-- **The work on an input of a run, in the world that the run has left,** fails if the script goes
to a file, and else prints it. -/
theorem prints_again (h : Completes (a.runInput settings) w inputs w')
    (hforce : settings.force = false) (hin : input ∈ inputs) :
    Prints (a.runInput settings) w' input (a.printedAgain? settings.extension w w' input) ∧
      (a.printedAgain? settings.extension w w' input).isNone =
        a.goesToFile settings.extension w input := by
  obtain ⟨w₁, w₂, back, hsame, hc, hback⟩ := exists_converted_of_mem h hin
  have hdest_eq := hsame.destination_eq settings.extension input
  have hagain : ∀ v, w'.Alike v → (v.run (a.destination settings.extension input)).1 =
      (w₁.run (a.destination settings.extension input)).1 := fun v hv =>
    (((sameOutput_of_completes h).trans (sameOutput_of_alike hv)).destination_eq ..).trans
      hdest_eq.symm
  unfold printedAgain? goesToFile
  cases hc with
  | written hp ht hw =>
    rw [hp.destination_eq] at hdest_eq hagain
    rw [← hdest_eq]
    refine ⟨fun v hv => run_runInput_of_isThere hforce (hagain v hv) ?_, rfl⟩
    rw [hv.tree, hv.here]
    exact isThere_of_wrote hw hback
  | printed hp =>
    rw [hp.destination_eq] at hdest_eq hagain
    obtain ⟨source, hsource, hscript⟩ := hp.script_eq
    have hprinted := destination_standardOutput hp.destination_eq
    have hsource' := readSource_of_printed hprinted hsource hback ⟨rfl, rfl, rfl⟩
    rw [← hdest_eq, hsource']
    simp only [Except.toOption, Option.bind_some, hscript]
    refine ⟨fun v hv => run_runInput_of_standardOutput (hagain v hv) ?_ hscript, rfl⟩
    exact (hv.readSource_eq input).trans hsource'

end ConvertArguments

open World ConvertArguments

/-- **Running a conversion again changes nothing.** After a run without force that succeeds, the
same run in the files it has left, with the same standard input, sends every script where it went
before, leaves all files and directories as they are, and fails exactly on the inputs whose script
goes to a file. -/
theorem run_again {w : World} {a : ConvertArguments} {settings : Settings}
    (hforce : (settings.convertWith a.force).force = false)
    (hrun : (w.run (a.run settings)).1 = .ok ()) (output errors : Text) :
    let again : World := { w with tree := (w.run (a.run settings)).2.tree, output, errors }
    (∀ input, (again.run (a.destination settings.convert.extension input)).1 =
      (w.run (a.destination settings.convert.extension input)).1) ∧
    (again.run (a.run settings)).2.tree = again.tree ∧
    failing (a.work settings) again a.inputs =
      a.inputs.filter (a.goesToFile settings.convert.extension w) ∧
    EndsWith (a.inputs.filter (a.goesToFile settings.convert.extension w)).length
      (again.run (a.run settings)).1 := by
  intro again
  have hcompletes := (completes_of_run hrun).2
  obtain ⟨hinputs, houtput⟩ := valid_of_run hrun
  have hlater := later_of_completes hcompletes
  have halike : (w.run (a.run settings)).2.Alike again := ⟨rfl, hlater.here.symm, hlater.input.symm⟩
  have hsame : a.SameOutput w again :=
    (sameOutput_of_completes hcompletes).trans (sameOutput_of_alike halike)
  have hprints := fun input (hin : input ∈ a.inputs) => prints_again hcompletes hforce hin
  obtain ⟨hleft, -, hfailing⟩ := run_of_prints (fun input hin => (hprints input hin).1) halike
  rw [List.filter_congr fun input hin => (hprints input hin).2] at hfailing
  obtain ⟨hend, hworld⟩ := run_forEachInput_eq (a.work settings) again a.inputs
  rw [run_of_valid hinputs (hsame.validateOutput_eq.trans houtput)]
  refine ⟨hsame.destination_eq _, ?_, hfailing, hfailing ▸ hend⟩
  rw [hworld]
  exact hleft.tree

/-- A file is converted beside its source and standard input is printed: the second run fails on
the file only. -/
theorem run_again_beside_input :
    let w : World := { tree := ⟨[(["a.st".toList], .file (.text ['1']))]⟩, input := .text ['='] }
    let a : ConvertArguments := { inputs := ["a.st".toList, "-".toList] }
    let again : World := { w with tree := (w.run (a.run {})).2.tree }
    again.tree ≠ w.tree ∧ (again.run (a.run {})).2.tree = again.tree ∧
      failing (a.work {}) again a.inputs = ["a.st".toList] ∧
      EndsWith 1 (again.run (a.run {})).1 := by
  intro w a again
  have hfile : a.inputs.filter (a.goesToFile ({} : Settings).convert.extension w) =
      ["a.st".toList] := by decide +kernel
  obtain ⟨-, htree, hfailing, hend⟩ :=
    @run_again w a {} rfl (by decide +kernel) w.output w.errors
  rw [hfile] at hfailing hend
  exact ⟨by decide +kernel, htree, hfailing, hend⟩

end Smalltalk
