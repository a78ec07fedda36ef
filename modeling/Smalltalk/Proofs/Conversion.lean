import Smalltalk.Command.Convert
import Smalltalk.Proofs.Locations

/-! # What converting does to a world

A command runs in a world and leaves another one. The work on one input first only asks: where the
script goes, whether it may go there, what the source is and what its script. Then it prints the
script, or creates directories and writes the file.

* `ConvertArguments.Converted`: all that the work on one input can do; `converted_runInput` says
  that it does nothing else.
* `World.Later`: what no conversion takes back: directories stay, and everything stays in one.
* `ConvertArguments.run_run_snd`, `ConvertArguments.completes_of_run`: a run is the work on the
  inputs in order, and if it succeeds, so does the work on each of them. -/

namespace Smalltalk

/-! ### Commands in a world -/

namespace World

variable {α β : Type} {w : World}

/-- What a command gives in a world, and the world it leaves. -/
def run (w : World) (x : ExceptT Failure (StateM World) α) : Except Failure α × World :=
  (x.run w : Id _)

theorem run_bind (w : World) (x : ExceptT Failure (StateM World) α)
    (f : α → ExceptT Failure (StateM World) β) :
    w.run (x >>= f) = match w.run x with
      | (.ok a, w') => w'.run (f a)
      | (.error e, w') => (.error e, w') := by
  unfold run
  change StateT.bind x.run (ExceptT.bindCont f) w = _
  rcases hx : (x.run w : Id _) with ⟨e | a, w'⟩ <;> simp [StateT.bind, hx] <;> rfl

theorem run_pure (w : World) (a : α) : w.run (pure a) = (.ok a, w) := rfl

theorem run_lift (w : World) (x : StateM World α) : w.run (liftM x) = (.ok (x w).1, (x w).2) := rfl

theorem run_except (w : World) (x : Except Failure α) : w.run (liftM x) = (x, w) := by
  cases x <;> rfl

theorem run_attempt (w : World) (failure : SystemError → Failure)
    (request : StateM World (Except SystemError α)) :
    w.run (Command.attempt failure request) =
      ((request w).1.mapError failure, (request w).2) := rfl

theorem readInput_eq (w : World) :
    (Place.readInput : StateM World (Except SystemError Text)) w =
      (match w.input with
        | .text text => .ok text
        | .binary _ => .error .notText, w) := by
  rcases w with ⟨tree, here, input, output, errors⟩
  cases input <;> rfl

theorem readText_eq (w : World) (p : Path) :
    (Place.readText p : StateM World (Except SystemError Text)) w =
      (w.tree.readText w.here p, w) := rfl

/-- The command only asks: it leaves every world as it is. -/
def Asks (x : ExceptT Failure (StateM World) α) : Prop := ∀ w : World, (w.run x).2 = w

theorem Asks.bind {x : ExceptT Failure (StateM World) α}
    {f : α → ExceptT Failure (StateM World) β} (hx : Asks x) (hf : ∀ a, Asks (f a)) :
    Asks (x >>= f) := by
  intro w
  have hw := hx w
  rw [run_bind]
  rcases hr : w.run x with ⟨e | a, w'⟩ <;> rw [hr] at hw
  · exact hw
  · rw [← hw]
    exact hf a w'

/-- A question behind a question is answered in the same world. -/
theorem Asks.exists_of_bind {x : ExceptT Failure (StateM World) α}
    {f : α → ExceptT Failure (StateM World) β} {b : β} (hx : Asks x)
    (h : (w.run (x >>= f)).1 = .ok b) :
    ∃ a, (w.run x).1 = .ok a ∧ (w.run (f a)).1 = .ok b := by
  have hw := hx w
  rw [run_bind] at h
  rcases hr : w.run x with ⟨e | a, w'⟩ <;> rw [hr] at h hw
  · cases h
  · obtain rfl : w' = w := hw
    exact ⟨a, rfl, h⟩

end World

/-! ### Questions of the conversion -/

namespace ConvertArguments

open World

variable {a : ConvertArguments} {settings : ConvertSettings} {w : World} {input : Path}

/-- The output is taken for a directory in a world. -/
def isDirectoryIn (w : World) (output : Path) : Bool :=
  match w.tree.status w.here output with
  | some .directory => true
  | some .file => false
  | none => output.extension?.isNone

theorem isDirectoryTarget_eq (w : World) (output : Path) :
    (isDirectoryTarget output : StateM World Bool) w = (isDirectoryIn w output, w) := by
  unfold isDirectoryTarget isDirectoryIn
  change (match w.tree.status w.here output with
    | some FileStatus.directory => _
    | some FileStatus.file => _
    | none => _ : StateM World Bool) w = _
  rcases w.tree.status w.here output with _ | _ | _ <;> rfl

theorem run_destination (w : World) (a : ConvertArguments) (extension : Text) (input : Path) :
    w.run (a.destination extension input) =
      (destinationIn a.output ((a.output.map (isDirectoryIn w)).getD false) extension input,
        w) := by
  unfold destination
  rcases a.output with _ | output
  · exact run_except w _
  · dsimp only
    rw [run_bind, run_lift, isDirectoryTarget_eq]
    exact run_except w _

theorem sameFile_eq (w : World) (p q : Path) :
    (sameFile p q : StateM World Bool) w =
      (decide (p.Same q) || w.tree.sameLocation w.here p q, w) := by
  unfold sameFile
  by_cases h : p.Same q
  · rw [if_pos h, decide_eq_true h]
    rfl
  · rw [if_neg h, decide_eq_false h]
    rfl

/-- What is checked of the output alone: it is not there, unless it may be overwritten. -/
theorem run_checkThere (w : World) (force : Bool) (output : Path) :
    w.run (unless force do
      if ← Place.isThere (m := StateM World) output then throw (.outputExists output)) =
      (if force = false ∧ (w.tree.status w.here output).isSome then .error (.outputExists output)
        else .ok (), w) := by
  cases force with
  | true => rfl
  | false =>
    change w.run (liftM (Place.isThere (m := StateM World) output) >>= _) = _
    rw [run_bind, run_lift]
    change w.run (if (w.tree.status w.here output).isSome = true then _ else _) = _
    cases (w.tree.status w.here output).isSome <;> rfl

theorem run_checkWritable (w : World) (force : Bool) (input output : Path) :
    w.run (checkWritable force input output) =
      (if input ≠ Path.standard ∧
          (decide (input.Same output) || w.tree.sameLocation w.here input output) = true then
        .error (.outputIsInput output)
      else if force = false ∧ (w.tree.status w.here output).isSome then
        .error (.outputExists output)
      else .ok (), w) := by
  unfold checkWritable
  by_cases hin : input ≠ Path.standard
  · dsimp only
    rw [if_pos hin, run_bind, run_lift, sameFile_eq]
    dsimp only
    cases decide (input.Same output) || w.tree.sameLocation w.here input output with
    | true =>
      have hboth : input ≠ Path.standard ∧ true = true := ⟨hin, rfl⟩
      rw [if_pos hboth]
      rfl
    | false =>
      have hnot : ¬ (input ≠ Path.standard ∧ false = true) := fun h => Bool.false_ne_true h.2
      rw [if_neg hnot]
      exact run_checkThere w force output
  · dsimp only
    rw [if_neg hin, if_neg fun h : _ ∧ _ => hin h.1]
    exact run_checkThere w force output

/-- **Where a script may be written:** the path does not lead to the input, and nothing is found
there unless it may be overwritten. -/
structure MayWrite (w : World) (force : Bool) (input output : Path) : Prop where
  not_input : input ≠ Path.standard → w.tree.sameLocation w.here input output = false
  not_there : force = false → w.tree.status w.here output = none

theorem mayWrite_of_checkWritable {force : Bool} {output : Path}
    (h : (w.run (checkWritable force input output)).1 = .ok ()) :
    MayWrite w force input output := by
  rw [run_checkWritable] at h
  dsimp only at h
  split at h
  · cases h
  · next hsame =>
    split at h
    · cases h
    · next hthere =>
      refine ⟨fun hin => ?_, fun hforce => ?_⟩
      · cases hloc : w.tree.sameLocation w.here input output with
        | false => rfl
        | true => exact absurd ⟨hin, by rw [hloc, Bool.or_true]⟩ hsame
      · rw [← Option.not_isSome_iff_eq_none]
        exact fun hsome => hthere ⟨hforce, hsome⟩

/-! ### Sources -/

theorem run_readSource_standard (w : World) :
    w.run (Command.readSource Path.standard) =
      (match w.input with
        | .text text => .ok ⟨Command.standardInputName, text⟩
        | .binary _ => .error (.system .notText), w) := by
  unfold Command.readSource
  rw [if_pos rfl, run_bind, run_attempt, readInput_eq]
  rcases w.input with text | bytes <;> rfl

theorem run_readSource_of_ne (w : World) (h : input ≠ Path.standard) :
    w.run (Command.readSource input) =
      (match w.tree.status w.here input with
        | none => .error (.missingInput input)
        | some .directory => .error (.inputNotFile input)
        | some .file =>
          ((w.tree.readText w.here input).mapError (.unreadable input)).map (⟨input, ·⟩), w) := by
  unfold Command.readSource
  rw [if_neg h, run_bind, run_lift]
  change w.run (match w.tree.status w.here input with
    | none => _
    | some .directory => _
    | some .file => _) = _
  rcases w.tree.status w.here input with _ | _ | _
  · rfl
  · dsimp only
    rw [run_bind, run_attempt, readText_eq]
    rcases w.tree.readText w.here input with e | text <;> rfl
  · rfl

theorem asks_readSource (input : Path) : Asks (Command.readSource input) := by
  intro w
  by_cases h : input = Path.standard
  · rw [h, run_readSource_standard]
  · rw [run_readSource_of_ne w h]

/-- The source that standard input or a file is. -/
theorem readSource_ok {source : Source} :
    (w.run (Command.readSource input)).1 = .ok source ↔
      (input = Path.standard ∧ w.input = .text source.content ∧
        source.name = Command.standardInputName) ∨
      (input ≠ Path.standard ∧ source.name = input ∧
        ∃ l, w.tree.find w.here input = .ok (l, .file (.text source.content))) := by
  obtain ⟨name, content⟩ := source
  by_cases h : input = Path.standard
  · rw [h, run_readSource_standard]
    rcases w.input with text | bytes <;> simp [eq_comm, and_comm]
  · rw [run_readSource_of_ne w h]
    unfold FileTree.status FileTree.readText
    rcases hf : w.tree.find w.here input with e | ⟨l, (text | bytes) | _⟩
    · simp [h]
    · change (Except.ok ⟨input, text⟩ : Except Failure Source) = _ ↔ _
      simp [h, eq_comm]
    · change (Except.error (.unreadable input .notText) : Except Failure Source) = _ ↔ _
      simp [h]
    · simp [h]

/-! ### Scripts -/

theorem asks_destination (extension : Text) (input : Path) :
    Asks (a.destination extension input : ExceptT Failure (StateM World) Destination) := by
  intro w
  rw [run_destination]

/-- The check of a destination; standard output needs none. -/
def checkDestination (force : Bool) (input : Path) :
    Destination → ExceptT Failure (StateM World) Unit
  | .standardOutput => pure ()
  | .file path => checkWritable force input path

theorem asks_checkDestination (force : Bool) (input : Path) (destination : Destination) :
    Asks (checkDestination force input destination) := by
  intro w
  cases destination with
  | standardOutput => rfl
  | file path => rw [checkDestination, run_checkWritable]

theorem asks_scriptOf (source : Source) :
    Asks (liftM (scriptOf source) : ExceptT Failure (StateM World) Text) := by
  intro w
  rw [run_except]

theorem prepare_eq (a : ConvertArguments) (settings : ConvertSettings) (input : Path) :
    a.prepare settings input = (do
      let destination ← a.destination settings.extension input
      checkDestination settings.force input destination
      let source ← Command.readSource input
      let script ← scriptOf source
      return (script, destination) : ExceptT Failure (StateM World) (Text × Destination)) := by
  unfold prepare
  congr 1
  funext destination
  cases destination <;> rfl

theorem asks_prepare (a : ConvertArguments) (settings : ConvertSettings) (input : Path) :
    Asks (a.prepare settings input) := by
  rw [prepare_eq]
  exact (asks_destination _ _).bind fun _ => (asks_checkDestination _ _ _).bind fun _ =>
    (asks_readSource input).bind fun _ => (asks_scriptOf _).bind fun _ _ => rfl

/-- **A script that is prepared** is the script of its source, and may go to its destination. -/
structure Prepared (a : ConvertArguments) (settings : ConvertSettings) (input : Path) (w : World)
    (script : Text) (destination : Destination) : Prop where
  destination_eq : (w.run (a.destination settings.extension input)).1 = .ok destination
  mayWrite : ∀ path, destination = .file path → MayWrite w settings.force input path
  script_eq : ∃ source, (w.run (Command.readSource input)).1 = .ok source ∧
    render source.content = .ok script

theorem prepared_of_prepare {script : Text} {destination : Destination}
    (h : (w.run (a.prepare settings input)).1 = .ok (script, destination)) :
    Prepared a settings input w script destination := by
  rw [prepare_eq] at h
  obtain ⟨d, hd, h⟩ := (asks_destination _ _).exists_of_bind h
  obtain ⟨u, hcheck, h⟩ := (asks_checkDestination _ _ _).exists_of_bind h
  obtain ⟨source, hsource, h⟩ := (asks_readSource input).exists_of_bind h
  obtain ⟨js, hscript, h⟩ := (asks_scriptOf source).exists_of_bind h
  obtain ⟨rfl, rfl⟩ : js = script ∧ d = destination := by simpa [run_pure] using h
  refine ⟨hd, ?_, source, hsource, ?_⟩
  · rintro path rfl
    exact mayWrite_of_checkWritable hcheck
  · rw [run_except] at hscript
    unfold scriptOf at hscript
    rcases hr : render source.content with e | text <;> rw [hr] at hscript
    · cases hscript
    · exact congrArg Except.ok (Except.ok.inj hscript)

/-! ### Delivering a script -/

/-- The request does nothing but create directories. -/
def Creates {α : Type} (x : StateM World α) : Prop :=
  ∀ w : World, ∃ t, w.tree.Grown t ∧ (x w).2 = { w with tree := t }

theorem Creates.bind {α β : Type} {x : StateM World α} {f : α → StateM World β} (hx : Creates x)
    (hf : ∀ r, Creates (f r)) : Creates (x >>= f) := by
  intro w
  obtain ⟨t, ht, hw⟩ := hx w
  obtain ⟨t', ht', hw'⟩ := hf (x w).1 (x w).2
  refine ⟨t', ht.trans ?_, hw'.trans ?_⟩
  · rw [hw] at ht'
    exact ht'
  · rw [hw]

theorem creates_createDirectory (p : Path) :
    Creates (Place.createDirectory p : StateM World (Except SystemError Unit)) := by
  intro w
  change ∃ t, w.tree.Grown t ∧ (World.change (fun tree here => tree.createDirectory here p) w).2 = _
  unfold World.change
  dsimp only
  rcases hc : w.tree.createDirectory w.here p with e | t
  · exact ⟨w.tree, .refl _, rfl⟩
  · exact ⟨t, FileTree.grown_of_createDirectory hc, rfl⟩

theorem creates_orThere (p : Path) (outcome : Except SystemError Unit) :
    Creates (Place.orThere p outcome : StateM World (Except SystemError Unit)) := by
  intro w
  cases outcome <;> exact ⟨w.tree, .refl _, rfl⟩

theorem creates_createChain (paths : List Path) :
    Creates (Place.createChain paths : StateM World (Except SystemError Unit)) := by
  induction paths with
  | nil => exact fun w => ⟨w.tree, .refl _, rfl⟩
  | cons p above ih =>
    refine (creates_createDirectory p).bind fun outcome => ?_
    -- only a missing directory above sends the request further up
    split
    · refine ih.bind fun outcome' => ?_
      split
      · exact fun w => ⟨w.tree, .refl _, rfl⟩
      · exact (creates_createDirectory p).bind (creates_orThere p)
    · exact creates_orThere p _

theorem run_writeText (w : World) (p : Path) (script : Text) :
    w.run (Command.attempt (.unwritable p) (Place.writeText p script)) =
      match w.tree.writeText w.here p script with
      | .ok t => (.ok (), { w with tree := t })
      | .error e => (.error (.unwritable p e), w) := by
  rw [run_attempt]
  change ((World.change (fun tree here => tree.writeText here p script) w).1.mapError _,
    (World.change (fun tree here => tree.writeText here p script) w).2) = _
  unfold World.change
  dsimp only
  rcases w.tree.writeText w.here p script with e | t <;> rfl

/-- Creates the directories above a file. -/
def createParents (p : Path) : ExceptT Failure (StateM World) Unit :=
  match p.parent? with
  | none | some [] => pure ()
  | some parent => Command.attempt .system (Place.createDirectories parent)

theorem deliver_file_eq (script : Text) (p : Path) :
    deliver script (.file p) = (do
      createParents p
      Command.attempt (.unwritable p) (Place.writeText p script)) := by
  unfold deliver createParents
  dsimp only
  rcases p.parent? with _ | _ | _ <;> rfl

theorem run_createParents (w : World) (p : Path) :
    ∃ t r, w.tree.Grown t ∧ w.run (createParents p) = (r, { w with tree := t }) := by
  unfold createParents
  split
  · exact ⟨w.tree, _, .refl _, rfl⟩
  · exact ⟨w.tree, _, .refl _, rfl⟩
  · next parent _ _ =>
    obtain ⟨t, ht, hw⟩ := creates_createChain parent.ancestors w
    exact ⟨t, _, ht, by rw [run_attempt]; exact Prod.ext rfl hw⟩

/-- **A script is written to a file** behind the directories that are created for it, or the work
stops with nothing but directories created. -/
theorem run_deliver_file (w : World) (script : Text) (p : Path) :
    ∃ t, w.tree.Grown t ∧
      ((∃ f, w.run (deliver script (.file p)) = (.error f, { w with tree := t })) ∨
      ∃ t', t.writeText w.here p script = .ok t' ∧
        w.run (deliver script (.file p)) = (.ok (), { w with tree := t' })) := by
  obtain ⟨t, r, ht, hr⟩ := run_createParents w p
  refine ⟨t, ht, ?_⟩
  rw [deliver_file_eq, run_bind, hr]
  rcases r with e | u
  · exact Or.inl ⟨e, rfl⟩
  · dsimp only
    rw [run_writeText]
    rcases hwrite : t.writeText w.here p script with e | t'
    · exact Or.inl ⟨_, rfl⟩
    · exact Or.inr ⟨t', rfl, rfl⟩

/-! ### One input -/

/-- **All that the work on one input can do:** refuse it, print its script, stop after creating
directories, or write its script behind the directories created for it. -/
inductive Converted (a : ConvertArguments) (settings : ConvertSettings) (input : Path) (w : World) :
    Except Failure Unit → World → Prop
  | refused {f : Failure} : Converted a settings input w (.error f) w
  | printed {script : Text} (hp : Prepared a settings input w script .standardOutput) :
    Converted a settings input w (.ok ()) { w with output := w.output ++ script }
  | stopped {script : Text} {path : Path} {f : Failure} {t : FileTree}
    (hp : Prepared a settings input w script (.file path)) (ht : w.tree.Grown t) :
    Converted a settings input w (.error f) { w with tree := t }
  | written {script : Text} {path : Path} {t t' : FileTree}
    (hp : Prepared a settings input w script (.file path)) (ht : w.tree.Grown t)
    (hw : t.Wrote w.here path script t') :
    Converted a settings input w (.ok ()) { w with tree := t' }

theorem converted_runInput (a : ConvertArguments) (settings : ConvertSettings) (input : Path)
    (w : World) :
    Converted a settings input w (w.run (a.runInput settings input)).1
      (w.run (a.runInput settings input)).2 := by
  have hworld := asks_prepare a settings input w
  unfold runInput
  rw [run_bind]
  rcases hp : w.run (a.prepare settings input) with ⟨f | ⟨script, destination⟩, w'⟩ <;>
    rw [hp] at hworld <;> obtain rfl : w' = w := hworld
  · exact .refused
  have hprepared := prepared_of_prepare (congrArg Prod.fst hp)
  cases destination with
  | standardOutput => exact .printed hprepared
  | file path =>
    dsimp only
    obtain ⟨t, ht, ⟨f, hd⟩ | ⟨t', hw, hd⟩⟩ := run_deliver_file w' script path <;> rw [hd]
    · exact .stopped hprepared ht
    · exact .written hprepared ht (FileTree.wrote_of_writeText hw)

end ConvertArguments

/-! ### Worlds that come later -/

namespace World

/-- What no conversion takes back. -/
structure Later (w w' : World) : Prop where
  here : w'.here = w.here
  input : w'.input = w.input
  within : w.tree.Within w'.tree
  wellFormed : w.tree.WellFormed → w'.tree.WellFormed

theorem Later.refl (w : World) : w.Later w := ⟨rfl, rfl, .refl _, id⟩

theorem Later.trans {w w' w'' : World} (h : w.Later w') (h' : w'.Later w'') : w.Later w'' :=
  ⟨h'.here.trans h.here, h'.input.trans h.input, h.within.trans h'.within,
    fun ht => h'.wellFormed (h.wellFormed ht)⟩

end World

namespace ConvertArguments

open World

variable {a : ConvertArguments} {settings : ConvertSettings} {input : Path} {w w' : World}
  {r : Except Failure Unit}

/-- **No conversion takes anything back** but what a file held. -/
theorem Converted.later (h : Converted a settings input w r w') : w.Later w' := by
  cases h with
  | refused => exact .refl w
  | printed hp => exact ⟨rfl, rfl, .refl _, id⟩
  | stopped hp ht => exact ⟨rfl, rfl, ht.within, ht.wellFormed⟩
  | written hp ht hw =>
    exact ⟨rfl, rfl, ht.within.trans hw.within, fun h => hw.wellFormed (ht.wellFormed h)⟩

end ConvertArguments

/-! ### All inputs -/

namespace World

variable {work : Path → ExceptT Failure (StateM World) Unit} {w w' : World}

/-- The world after the work on an input; a failure is reported. -/
def afterInput (work : Path → ExceptT Failure (StateM World) Unit) (w : World) (input : Path) :
    World :=
  match w.run (work input) with
  | (.ok (), w') => w'
  | (.error f, w') => { w' with errors := w'.errors ++ Command.failureReport input f }

theorem countFailures_cons (work : Path → ExceptT Failure (StateM World) Unit) (w : World)
    (input : Path) (inputs : List Path) :
    (Command.countFailures work (input :: inputs) : StateM World Nat) w =
      match w.run (work input) with
      | (.ok (), w') => (Command.countFailures work inputs : StateM World Nat) w'
      | (.error f, w') =>
        let rest := (Command.countFailures work inputs : StateM World Nat)
          { w' with errors := w'.errors ++ Command.failureReport input f }
        (rest.1 + 1, rest.2) := by
  rw [Command.countFailures]
  change StateT.bind (work input).run _ w = _
  unfold World.run
  rcases hx : ((work input).run w : Id _) with ⟨f | u, w'⟩ <;> simp [StateT.bind, hx] <;> rfl

/-- **A run leaves the world of the work on one input after another.** -/
theorem countFailures_snd (work : Path → ExceptT Failure (StateM World) Unit) (w : World)
    (inputs : List Path) :
    ((Command.countFailures work inputs : StateM World Nat) w).2 =
      inputs.foldl (afterInput work) w := by
  induction inputs generalizing w with
  | nil => rfl
  | cons input inputs ih =>
    rw [countFailures_cons, List.foldl_cons, afterInput]
    rcases w.run (work input) with ⟨f | u, w'⟩ <;> exact ih _

/-- The work on every input succeeds, one after another. -/
inductive Completes (work : Path → ExceptT Failure (StateM World) Unit) :
    World → List Path → World → Prop
  | done {w : World} : Completes work w [] w
  | input {w w₁ w₂ : World} {input : Path} {inputs : List Path}
    (h : w.run (work input) = (.ok (), w₁)) (hs : Completes work w₁ inputs w₂) :
    Completes work w (input :: inputs) w₂

theorem completes_of_countFailures {inputs : List Path}
    (h : (Command.countFailures work inputs : StateM World Nat) w = (0, w')) :
    Completes work w inputs w' := by
  induction inputs generalizing w with
  | nil =>
    obtain rfl : w = w' := congrArg Prod.snd h
    exact .done
  | cons input inputs ih =>
    rw [countFailures_cons] at h
    rcases hr : w.run (work input) with ⟨f | u, w₁⟩ <;> rw [hr] at h
    · cases congrArg Prod.fst h
    · exact .input hr (ih h)

theorem Completes.exists_of_append {front back : List Path}
    (h : Completes work w (front ++ back) w') :
    ∃ w₁, Completes work w front w₁ ∧ Completes work w₁ back w' := by
  induction front generalizing w with
  | nil => exact ⟨w, .done, h⟩
  | cons input front ih =>
    cases h with
    | input h hs =>
      obtain ⟨w₁, hfront, hback⟩ := ih hs
      exact ⟨w₁, .input h hfront, hback⟩

theorem run_forEachInput (work : Path → ExceptT Failure (StateM World) Unit) (w : World)
    (inputs : List Path) :
    w.run (Command.forEachInput work inputs) =
      let counted := (Command.countFailures work inputs : StateM World Nat) w
      (if counted.1 = 0 then .ok () else .error (.inputsFailed counted.1), counted.2) := by
  unfold Command.forEachInput
  rw [run_bind, run_lift]
  dsimp only
  split <;> rfl

end World

namespace ConvertArguments

open World

variable {a : ConvertArguments} {settings : Settings} {w : World}

/-- The output can take the scripts of several inputs. -/
def TakesScripts (a : ConvertArguments) (w : World) : Prop :=
  ∀ output, a.output = some output → output ≠ Path.standard → isDirectoryIn w output = true

theorem asks_validateOutput (a : ConvertArguments) : Asks a.validateOutput := by
  intro w
  unfold validateOutput
  rcases a.output with _ | output
  · rfl
  · dsimp only
    split
    · rw [run_bind, run_lift, isDirectoryTarget_eq]
      dsimp only
      split <;> rfl
    · rfl

theorem takesScripts_of_validateOutput (h : (w.run a.validateOutput).1 = .ok ())
    (hlen : 1 < a.inputs.length) : a.TakesScripts w := by
  intro output ho hne
  unfold validateOutput at h
  rw [ho] at h
  dsimp only at h
  rw [if_pos ⟨hlen, hne⟩, run_bind, run_lift, isDirectoryTarget_eq] at h
  dsimp only at h
  cases hd : isDirectoryIn w output with
  | true => rfl
  | false =>
    rw [hd] at h
    cases h

/-- **A run works on the inputs one after another,** or is refused before it does anything. -/
theorem run_run (w : World) (a : ConvertArguments) (settings : Settings) :
    (∃ f, w.run (a.run settings) = (.error f, w)) ∨
    ((w.run a.validateOutput).1 = .ok () ∧ w.run (a.run settings) =
      w.run (Command.forEachInput (a.runInput (settings.convertWith a.force)) a.inputs)) := by
  unfold ConvertArguments.run
  rw [run_bind, run_except]
  rcases Command.validateInputs a.inputs with f | u
  · exact Or.inl ⟨f, rfl⟩
  · dsimp only
    have hworld := asks_validateOutput a w
    rw [run_bind]
    rcases hv : w.run a.validateOutput with ⟨f | u, w'⟩ <;> rw [hv] at hworld <;>
      obtain rfl : w' = w := hworld
    · exact Or.inl ⟨f, rfl⟩
    · exact Or.inr ⟨rfl, rfl⟩

theorem run_run_snd (w : World) (a : ConvertArguments) (settings : Settings) :
    (w.run (a.run settings)).2 = w ∨ (w.run (a.run settings)).2 =
      a.inputs.foldl (afterInput (a.runInput (settings.convertWith a.force))) w := by
  rcases run_run w a settings with ⟨f, hr⟩ | ⟨-, hr⟩ <;> rw [hr]
  · exact Or.inl rfl
  · rw [run_forEachInput]
    exact Or.inr (countFailures_snd ..)

/-- **A run that succeeds** succeeds on every input, and its output takes all their scripts. -/
theorem completes_of_run (h : (w.run (a.run settings)).1 = .ok ()) :
    (1 < a.inputs.length → a.TakesScripts w) ∧
      Completes (a.runInput (settings.convertWith a.force)) w a.inputs
        (w.run (a.run settings)).2 := by
  rcases run_run w a settings with ⟨f, hr⟩ | ⟨hv, hr⟩
  · rw [hr] at h
    cases h
  · refine ⟨takesScripts_of_validateOutput hv, ?_⟩
    rw [hr, run_forEachInput] at h ⊢
    dsimp only at h ⊢
    split at h
    · next hzero => exact completes_of_countFailures (Prod.ext hzero rfl)
    · cases h

/-- What every conversion keeps, a run keeps. -/
theorem run_induction {P : World → Prop} (w : World) (a : ConvertArguments) (settings : Settings)
    (hstep : ∀ input ∈ a.inputs, ∀ (w : World) (r : Except Failure Unit) (w' : World),
      Converted a (settings.convertWith a.force) input w r w' → P w → P w')
    (hreport : ∀ (w : World) (text : Text), P w → P { w with errors := w.errors ++ text })
    (hw : P w) : P (w.run (a.run settings)).2 := by
  rcases run_run_snd w a settings with hr | hr <;> rw [hr]
  · exact hw
  · refine List.foldlRecOn a.inputs _ hw fun w hw input hin => ?_
    have hc := hstep input hin w _ _ (converted_runInput a _ input w) hw
    unfold afterInput
    rcases hx : w.run (a.runInput (settings.convertWith a.force) input) with ⟨f | u, w'⟩ <;>
      rw [hx] at hc
    · exact hreport w' _ hc
    · exact hc

end ConvertArguments

end Smalltalk
