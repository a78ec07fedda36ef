import Smalltalk.Proofs.Conversion

/-! # Inputs that fail

A run works on one input after another, each in the world that the inputs before it have left, and
goes on if the work on one of them fails. So a run is described by what it visits, `World.visits`,
and it splits its inputs into those that succeed and those that fail.

* `World.run_forEachInput_eq`: a run leaves the world behind its last input and tells how many
  inputs failed.
* `World.Quiet`: a command that does not mind what was reported before it. Converting is quiet.
* `World.completes_succeeding`: if the work is quiet and failures change nothing, a run does what
  the work on the succeeding inputs alone does.
* `World.run_of_prints`: work that only prints what the files and the standard input determine
  prints in a run what it prints for each input.
* `failures_leave_no_trace`: hence a conversion in which failures are refusals. -/

namespace Smalltalk

/-! ### Inputs that succeed and inputs that fail -/

namespace World

variable {work : Path → ExceptT Failure (StateM World) Unit} {w w' : World} {input : Path}
  {inputs : List Path} {f : Failure}

/-- The inputs of a run, each with the world in which it is worked on. -/
def visits (work : Path → ExceptT Failure (StateM World) Unit) :
    World → List Path → List (World × Path)
  | _, [] => []
  | w, input :: inputs => (w, input) :: visits work (afterInput work w input) inputs

/-- The work on an input succeeds in a world. -/
def succeeds (work : Path → ExceptT Failure (StateM World) Unit) (x : World × Path) : Bool :=
  (x.1.run (work x.2)).1.isOk

/-- The inputs of a run on which the work succeeds. -/
def succeeding (work : Path → ExceptT Failure (StateM World) Unit) (w : World)
    (inputs : List Path) : List Path :=
  ((visits work w inputs).filter (succeeds work)).map (·.2)

/-- The inputs of a run on which the work fails. -/
def failing (work : Path → ExceptT Failure (StateM World) Unit) (w : World)
    (inputs : List Path) : List Path :=
  ((visits work w inputs).filter fun x => !succeeds work x).map (·.2)

section Cons

theorem afterInput_of_ok (h : w.run (work input) = (.ok (), w')) :
    afterInput work w input = w' := by
  rw [afterInput, h]

theorem afterInput_of_error (h : w.run (work input) = (.error f, w')) :
    afterInput work w input =
      { w' with errors := w'.errors ++ Command.failureReport input f } := by
  rw [afterInput, h]

theorem succeeding_cons_of_ok (h : w.run (work input) = (.ok (), w')) :
    succeeding work w (input :: inputs) = input :: succeeding work w' inputs := by
  have hs : succeeds work (w, input) = true := by rw [succeeds, h]; rfl
  rw [succeeding, visits, List.filter_cons_of_pos hs, afterInput_of_ok h]
  rfl

theorem failing_cons_of_ok (h : w.run (work input) = (.ok (), w')) :
    failing work w (input :: inputs) = failing work w' inputs := by
  have hs : succeeds work (w, input) = true := by rw [succeeds, h]; rfl
  rw [failing, visits, List.filter_cons_of_neg (by simp [hs]), afterInput_of_ok h]
  rfl

theorem succeeding_cons_of_error (h : w.run (work input) = (.error f, w')) :
    succeeding work w (input :: inputs) = succeeding work (afterInput work w input) inputs := by
  have hs : succeeds work (w, input) = false := by rw [succeeds, h]; rfl
  rw [succeeding, visits, List.filter_cons_of_neg (by simp [hs])]
  rfl

theorem failing_cons_of_error (h : w.run (work input) = (.error f, w')) :
    failing work w (input :: inputs) =
      input :: failing work (afterInput work w input) inputs := by
  have hs : succeeds work (w, input) = false := by rw [succeeds, h]; rfl
  rw [failing, visits, List.filter_cons_of_pos (by simp [hs])]
  rfl

end Cons

/-! ### How a run ends -/

theorem countFailures_fst (work : Path → ExceptT Failure (StateM World) Unit) (w : World)
    (inputs : List Path) :
    ((Command.countFailures work inputs : StateM World Nat) w).1 =
      (failing work w inputs).length := by
  induction inputs generalizing w with
  | nil => rfl
  | cons input inputs ih =>
    rw [countFailures_cons]
    rcases hr : w.run (work input) with ⟨f | u, w'⟩
    · rw [failing_cons_of_error hr, afterInput_of_error hr, List.length_cons, ← ih]
    · rw [failing_cons_of_ok hr, ← ih]

/-- **The end of a command:** it succeeds exactly if the work failed on no input, and else it tells
on how many inputs it failed. -/
structure EndsWith (failed : Nat) (r : Except Failure Unit) : Prop where
  ok_iff : r = .ok () ↔ failed = 0
  error : failed ≠ 0 → ∃ f, r = .error f ∧ f.category = .execution ∧
    f.message = "Command execution failed: ".toList ++ Text.ofNat failed ++
      " file(s) failed to process".toList

/-- **A run leaves the world behind its last input** and tells how many inputs failed. -/
theorem run_forEachInput_eq (work : Path → ExceptT Failure (StateM World) Unit) (w : World)
    (inputs : List Path) :
    EndsWith (failing work w inputs).length (w.run (Command.forEachInput work inputs)).1 ∧
      (w.run (Command.forEachInput work inputs)).2 = inputs.foldl (afterInput work) w := by
  rw [run_forEachInput]
  dsimp only
  rw [countFailures_fst, countFailures_snd]
  refine ⟨⟨?_, fun hne => ⟨_, if_neg hne, rfl, rfl⟩⟩, rfl⟩
  split <;> simp_all

/-! ### Commands that do not mind reports -/

/-- The command neither reads nor changes what was reported. -/
def Quiet {α : Type} (x : StateM World α) : Prop :=
  ∀ (w : World) (errors : Text), x { w with errors } = ((x w).1, { (x w).2 with errors })

theorem Quiet.bind {α β : Type} {x : StateM World α} {f : α → StateM World β} (hx : Quiet x)
    (hf : ∀ a, Quiet (f a)) : Quiet (x >>= f) := by
  intro w errors
  change f (x { w with errors }).1 (x { w with errors }).2 = _
  rw [hx w errors]
  exact hf (x w).1 (x w).2 errors

theorem Quiet.run_bind {α β : Type} {x : ExceptT Failure (StateM World) α}
    {f : α → ExceptT Failure (StateM World) β} (hx : Quiet x.run) (hf : ∀ a, Quiet (f a).run) :
    Quiet (x >>= f).run := by
  change Quiet (x.run >>= ExceptT.bindCont f)
  refine hx.bind fun r => ?_
  cases r with
  | ok a => exact hf a
  | error e => exact fun _ _ => rfl

theorem Completes.quiet (hq : ∀ input, Quiet (work input).run) (errors : Text)
    (h : Completes work w inputs w') :
    Completes work { w with errors } inputs { w' with errors } := by
  induction h with
  | done => exact .done
  | @input w w₁ w₂ input inputs h _ ih =>
    refine .input ?_ ih
    have hrun := hq input w errors
    change World.run _ _ = _ at hrun
    rw [hrun]
    change ((w.run (work input)).1, { (w.run (work input)).2 with errors }) = _
    rw [h]

/-- **A run does what the work on the succeeding inputs alone does,** up to what it reports, if the
work is quiet and changes nothing where it fails. -/
theorem completes_succeeding (hq : ∀ input, Quiet (work input).run)
    (hkeep : ∀ x ∈ visits work w inputs, succeeds work x = false →
      (x.1.run (work x.2)).2 = x.1) :
    ∃ w', Completes work w (succeeding work w inputs) w' ∧
      ∃ errors, inputs.foldl (afterInput work) w = { w' with errors } := by
  induction inputs generalizing w with
  | nil => exact ⟨w, .done, w.errors, rfl⟩
  | cons input inputs ih =>
    have htail := fun x hx => hkeep x (List.mem_cons_of_mem _ hx)
    obtain ⟨w', hc, errors, hfold⟩ := ih htail
    rcases hr : w.run (work input) with ⟨f | u, w₁⟩
    · -- the input fails, so the others find the same world but for the report
      have hs : succeeds work (w, input) = false := by rw [succeeds, hr]; rfl
      have hw : w₁ = w := by
        have := hkeep (w, input) List.mem_cons_self hs
        rw [hr] at this
        exact this
      refine ⟨{ w' with errors := w.errors }, ?_, errors, ?_⟩
      · have hquiet := hc.quiet hq w.errors
        rw [succeeding_cons_of_error hr]
        rw [afterInput_of_error hr, hw] at hquiet ⊢
        exact hquiet
      · rw [List.foldl_cons, hfold]
    · rw [succeeding_cons_of_ok hr]
      rw [afterInput_of_ok hr] at hc
      exact ⟨w', .input hr hc, errors, by rw [List.foldl_cons, hfold]⟩

/-! ### Work that only prints -/

/-- The worlds differ only in what was printed and reported. -/
structure Alike (w w' : World) : Prop where
  tree : w'.tree = w.tree
  here : w'.here = w.here
  input : w'.input = w.input

theorem Alike.readSource_eq (h : w.Alike w') (input : Path) :
    (w'.run (Command.readSource input)).1 = (w.run (Command.readSource input)).1 := by
  by_cases hin : input = Path.standard
  · rw [hin, ConvertArguments.run_readSource_standard, ConvertArguments.run_readSource_standard,
      h.input]
  · rw [ConvertArguments.run_readSource_of_ne _ hin, ConvertArguments.run_readSource_of_ne _ hin,
      h.tree, h.here]

/-- In every world like `w`, the work on an input prints a text, or it fails and changes
nothing. -/
def Prints (work : Path → ExceptT Failure (StateM World) Unit) (w : World) (input : Path) :
    Option Text → Prop
  | some text =>
    ∀ v, w.Alike v → v.run (work input) = (.ok (), { v with output := v.output ++ text })
  | none => ∀ v, w.Alike v → ∃ f, v.run (work input) = (.error f, v)

/-- **A run of work that only prints:** it prints one text after another, and it fails on the
inputs that have none. -/
theorem run_of_prints {text? : Path → Option Text} {v : World}
    (h : ∀ input ∈ inputs, Prints work w input (text? input)) (hv : w.Alike v) :
    w.Alike (inputs.foldl (afterInput work) v) ∧
    (inputs.foldl (afterInput work) v).output = v.output ++
      (inputs.filter fun input => (text? input).isSome).flatMap
        (fun input => (text? input).getD []) ∧
    failing work v inputs = inputs.filter fun input => (text? input).isNone := by
  induction inputs generalizing v with
  | nil => exact ⟨hv, (List.append_nil _).symm, rfl⟩
  | cons input inputs ih =>
    have hprints := h input List.mem_cons_self
    have htail := fun input hin => h input (List.mem_cons_of_mem _ hin)
    cases ht : text? input with
    | none =>
      rw [ht] at hprints
      obtain ⟨f, hr⟩ := hprints v hv
      obtain ⟨halike, houtput, hfailing⟩ := ih htail (v := { v with
        errors := v.errors ++ Command.failureReport input f }) ⟨hv.tree, hv.here, hv.input⟩
      rw [List.foldl_cons, failing_cons_of_error hr, afterInput_of_error hr,
        List.filter_cons_of_neg (by simp [ht]), List.filter_cons_of_pos (by simp [ht])]
      exact ⟨halike, houtput, congrArg (input :: ·) hfailing⟩
    | some text =>
      rw [ht] at hprints
      have hr := hprints v hv
      obtain ⟨halike, houtput, hfailing⟩ := ih htail (v := { v with
        output := v.output ++ text }) ⟨hv.tree, hv.here, hv.input⟩
      rw [List.foldl_cons, failing_cons_of_ok hr, afterInput_of_ok hr,
        List.filter_cons_of_pos (by simp [ht]), List.filter_cons_of_neg (by simp [ht])]
      refine ⟨halike, ?_, hfailing⟩
      rw [houtput, List.flatMap_cons, ht, List.append_assoc]
      rfl

end World

/-! ### Converting is quiet -/

namespace ConvertArguments

open World

theorem quiet_destination (a : ConvertArguments) (extension : Text) (input : Path) :
    Quiet (a.destination extension input).run := by
  intro w errors
  change World.run _ _ = ((w.run _).1, { (w.run _).2 with errors })
  rw [run_destination, run_destination]
  rfl

theorem quiet_checkDestination (force : Bool) (input : Path) (destination : Destination) :
    Quiet (checkDestination force input destination).run := by
  intro w errors
  cases destination with
  | standardOutput => rfl
  | file path =>
    change World.run _ (checkWritable ..) =
      ((w.run (checkWritable ..)).1, { (w.run (checkWritable ..)).2 with errors })
    rw [run_checkWritable, run_checkWritable]

theorem quiet_readSource (input : Path) : Quiet (Command.readSource input).run := by
  intro w errors
  change World.run _ _ = ((w.run _).1, { (w.run _).2 with errors })
  by_cases h : input = Path.standard
  · rw [h, run_readSource_standard, run_readSource_standard]
  · rw [run_readSource_of_ne _ h, run_readSource_of_ne _ h]

theorem quiet_except {α : Type} (x : Except Failure α) :
    Quiet (liftM x : ExceptT Failure (StateM World) α).run := by
  intro w errors
  cases x <;> rfl

theorem quiet_prepare (a : ConvertArguments) (settings : ConvertSettings) (input : Path) :
    Quiet (a.prepare settings input).run := by
  rw [prepare_eq]
  exact (quiet_destination _ _ _).run_bind fun _ => (quiet_checkDestination _ _ _).run_bind fun _ =>
    (quiet_readSource input).run_bind fun _ => (quiet_except _).run_bind fun _ _ _ => rfl

theorem quiet_change (g : FileTree → Location → Except SystemError FileTree) :
    Quiet (World.change g) := by
  intro w errors
  unfold World.change
  dsimp only
  rcases g w.tree w.here with e | t <;> rfl

theorem quiet_orThere (p : Path) (outcome : Except SystemError Unit) :
    Quiet (Place.orThere p outcome : StateM World (Except SystemError Unit)) := by
  intro w errors
  cases outcome <;> rfl

theorem quiet_createChain (paths : List Path) :
    Quiet (Place.createChain paths : StateM World (Except SystemError Unit)) := by
  induction paths with
  | nil => exact fun _ _ => rfl
  | cons p above ih =>
    have hcreate : Quiet (Place.createDirectory p : StateM World (Except SystemError Unit)) :=
      quiet_change _
    refine hcreate.bind fun outcome => ?_
    split
    · refine ih.bind fun outcome' => ?_
      split
      · exact fun _ _ => rfl
      · exact hcreate.bind (quiet_orThere p)
    · exact quiet_orThere p _

theorem quiet_attempt {α : Type} (failure : SystemError → Failure)
    {request : StateM World (Except SystemError α)} (h : Quiet request) :
    Quiet (Command.attempt failure request).run :=
  h.bind fun _ _ _ => rfl

theorem quiet_deliver (script : Text) (destination : Destination) :
    Quiet (deliver script destination : ExceptT Failure (StateM World) Unit).run := by
  cases destination with
  | standardOutput => exact fun _ _ => rfl
  | file path =>
    rw [deliver_file_eq]
    refine Quiet.run_bind ?_ fun _ => quiet_attempt _ (quiet_change _)
    unfold createParents
    split
    · exact fun _ _ => rfl
    · exact fun _ _ => rfl
    · exact quiet_attempt _ (quiet_createChain _)

theorem quiet_runInput (a : ConvertArguments) (settings : ConvertSettings) (input : Path) :
    Quiet (a.runInput settings input).run :=
  (quiet_prepare a settings input).run_bind fun _ => quiet_deliver _ _

/-! ### Whole conversions -/

/-- The work of a run on one input. -/
abbrev work (a : ConvertArguments) (settings : Settings) (input : Path) :
    ExceptT Failure (StateM World) Unit :=
  a.runInput (settings.convertWith a.force) input

variable {a : ConvertArguments} {w : World} {input : Path}

theorem run_of_valid {settings : Settings} (hinputs : Command.validateInputs a.inputs = .ok ())
    (houtput : (w.run a.validateOutput).1 = .ok ()) :
    w.run (a.run settings) = w.run (Command.forEachInput (a.work settings) a.inputs) := by
  have hworld := asks_validateOutput a w
  rw [ConvertArguments.run, run_bind, run_except, hinputs]
  dsimp only
  rw [run_bind]
  rcases hv : w.run a.validateOutput with ⟨f | u, w'⟩ <;> rw [hv] at houtput hworld
  · cases houtput
  · obtain rfl : w' = w := hworld
    rfl

theorem valid_of_run {settings : Settings} (h : (w.run (a.run settings)).1 = .ok ()) :
    Command.validateInputs a.inputs = .ok () ∧ (w.run a.validateOutput).1 = .ok () := by
  rcases run_run w a settings with ⟨f, hr⟩ | ⟨hv, -⟩
  · rw [hr] at h
    cases h
  · rcases hi : Command.validateInputs a.inputs with f | u
    · rw [ConvertArguments.run, run_bind, run_except, hi] at h
      cases h
    · exact ⟨rfl, hv⟩

/-- Work that is refused while it is prepared changes nothing. -/
theorem run_runInput_of_prepare {settings : ConvertSettings} {f : Failure}
    (h : (w.run (a.prepare settings input)).1 = .error f) :
    w.run (a.runInput settings input) = (.error f, w) := by
  have hworld := asks_prepare a settings input w
  rw [runInput, run_bind]
  rcases hp : w.run (a.prepare settings input) with ⟨f' | prepared, w'⟩ <;> rw [hp] at h hworld
  · obtain rfl := Except.error.inj h
    obtain rfl : w' = w := hworld
    rfl
  · cases h

end ConvertArguments

open World ConvertArguments

/-- **Failed conversions leave no trace.** Work that is refused while the destination is determined
and checked, the source read and its script made changes nothing. So if all failures of a run are
such refusals, the files and the output are those of the work on the succeeding inputs alone, in
order, and the run tells how many inputs failed. -/
theorem failures_leave_no_trace {w : World} {a : ConvertArguments} {settings : Settings} :
    (∀ (convert : ConvertSettings) (w : World) (input : Path) (f : Failure),
      (w.run (a.prepare convert input)).1 = .error f →
        w.run (a.runInput convert input) = (.error f, w)) ∧
    (Command.validateInputs a.inputs = .ok () → (w.run a.validateOutput).1 = .ok () →
      (∀ x ∈ visits (a.work settings) w a.inputs, succeeds (a.work settings) x = false →
        (x.1.run (a.prepare (settings.convertWith a.force) x.2)).1.isOk = false) →
      (∃ w', Completes (a.work settings) w (succeeding (a.work settings) w a.inputs) w' ∧
        (w.run (a.run settings)).2.tree = w'.tree ∧
        (w.run (a.run settings)).2.output = w'.output) ∧
      EndsWith (failing (a.work settings) w a.inputs).length (w.run (a.run settings)).1) := by
  refine ⟨fun _ _ _ _ => run_runInput_of_prepare, fun hinputs houtput hrefused => ?_⟩
  obtain ⟨hend, hworld⟩ := run_forEachInput_eq (a.work settings) w a.inputs
  rw [run_of_valid hinputs houtput]
  refine ⟨?_, hend⟩
  have hkeep : ∀ x ∈ visits (a.work settings) w a.inputs, succeeds (a.work settings) x = false →
      (x.1.run (a.work settings x.2)).2 = x.1 := by
    intro x hx hs
    have hno := hrefused x hx hs
    rcases hp : (x.1.run (a.prepare (settings.convertWith a.force) x.2)).1 with f | prepared
    · rw [run_runInput_of_prepare hp]
    · rw [hp] at hno
      cases hno
  obtain ⟨w', hcompletes, errors, hfold⟩ :=
    completes_succeeding (quiet_runInput a (settings.convertWith a.force)) hkeep
  rw [hworld, hfold]
  exact ⟨w', hcompletes, rfl, rfl⟩

/-- Of three inputs the first is missing and the last is refused because the script of the second
is in its place. -/
theorem failures_leave_no_trace_amid :
    let w : World := { tree := ⟨[(["x".toList], .directory),
      (["x".toList, "a.st".toList], .file (.text ['='])), (["a.st".toList], .file (.text ['1']))]⟩ }
    let a : ConvertArguments :=
      { inputs := ["b.st".toList, "x/a.st".toList, "a.st".toList], output := some "out".toList }
    succeeding (a.work {}) w a.inputs = ["x/a.st".toList] ∧
      ∃ w', Completes (a.work {}) w ["x/a.st".toList] w' ∧
        (w.run (a.run {})).2.tree = w'.tree ∧ EndsWith 2 (w.run (a.run {})).1 := by
  intro w a
  have hsucceeding : succeeding (a.work {}) w a.inputs = ["x/a.st".toList] := by decide +kernel
  have hfailing : (failing (a.work {}) w a.inputs).length = 2 := by decide +kernel
  obtain ⟨⟨w', hcompletes, htree, -⟩, hend⟩ :=
    (@failures_leave_no_trace w a {}).2 rfl rfl (by decide +kernel)
  rw [hsucceeding] at hcompletes
  rw [hfailing] at hend
  exact ⟨hsucceeding, w', hcompletes, htree, hend⟩

end Smalltalk
