import Mathlib.Data.List.Basic
import Smalltalk.Command.Tokens
import Smalltalk.Proofs.Outcomes

/-! # Tokens of several inputs

Printing tokens changes nothing but what is printed and reported, so the inputs do not bear on each
other: what is printed is what the command prints for each input alone, up to the headings.

* `TokensArguments.scanOf?`: the scan of an input in a world, if it can be read and scanned.
* `TokensArguments.prints_work`: the work on an input prints the dump of its scan.
* `TokensArguments.run_prints`: so a run prints the dumps of all scans.
* `run_prints_each_alone`: hence what it prints in terms of runs on one input. -/

namespace Smalltalk

namespace TokensArguments

open World

variable {a : TokensArguments} {settings : Settings} {format : OutputFormat} {w : World}
  {input : Path}

/-- The name of the source of an input and its scan, if the input can be read and scanned. -/
def scanOf? (a : TokensArguments) (settings : Settings) (w : World) (input : Path) :
    Option (Text × Scan) :=
  match (w.run (Command.readSource input)).1 with
  | .ok source =>
    (scan source.content a.start
      (settings.tokensWith a.keepBlanks a.format).keepBlanks).toOption.map (source.name, ·)
  | .error _ => none

/-- What a run prints for an input, if the input can be read and scanned. -/
def dumpOf? (a : TokensArguments) (settings : Settings) (format : OutputFormat) (w : World)
    (input : Path) : Option Text :=
  (a.scanOf? settings w input).map fun x => dump format (1 < a.inputs.length) x.1 x.2

/-- What the command prints for an input if it is given no other. -/
def printedAlone (a : TokensArguments) (settings : Settings) (w : World) (input : Path) : Text :=
  ({ w with output := [] }.run ({ a with inputs := [input] }.run settings)).2.output

/-- What stands above the tokens of an input: its name, if there are other inputs and the format
does not give the name itself. -/
def heading (a : TokensArguments) (format : OutputFormat) (input : Path) : Text :=
  if format = .text ∧ 1 < a.inputs.length then
    "==> ".toList ++ (if input = Path.standard then Command.standardInputName else input) ++
      " <==\n".toList
  else []

/-- The work of a run on one input. -/
abbrev work (a : TokensArguments) (settings : Settings) (format : OutputFormat) (input : Path) :
    ExceptT Failure (StateM World) Unit :=
  a.runInput (settings.tokensWith a.keepBlanks a.format).keepBlanks format input

/-! ### One input -/

theorem name_of_scanOf? {x : Text × Scan} (h : a.scanOf? settings w input = some x) :
    x.1 = if input = Path.standard then Command.standardInputName else input := by
  unfold scanOf? at h
  rcases hs : (w.run (Command.readSource input)).1 with f | source <;> rw [hs] at h
  · cases h
  · obtain ⟨s, -, rfl⟩ := Option.map_eq_some_iff.mp h
    rcases ConvertArguments.readSource_ok.mp hs with ⟨hin, -, hname⟩ | ⟨hin, hname, -⟩
    · rw [if_pos hin]
      exact hname
    · rw [if_neg hin]
      exact hname

/-- Below its heading, the dump of an input is that of the input alone. -/
theorem dump_eq_heading_append {x : Text × Scan} (h : a.scanOf? settings w input = some x) :
    dump format (1 < a.inputs.length) x.1 x.2 =
      a.heading format input ++ dump format false x.1 x.2 := by
  rw [heading, ← name_of_scanOf? h]
  cases format with
  | json => rfl
  | text =>
    by_cases hmany : 1 < a.inputs.length
    · rw [if_pos ⟨rfl, hmany⟩, decide_eq_true hmany]
      rfl
    · rw [if_neg fun h => hmany h.2, decide_eq_false hmany]
      rfl

theorem run_work (a : TokensArguments) (settings : Settings) (format : OutputFormat) (w : World)
    (input : Path) :
    w.run (a.work settings format input) =
      match (w.run (Command.readSource input)).1 with
      | .error f => (.error f, w)
      | .ok source =>
        match scan source.content a.start
          (settings.tokensWith a.keepBlanks a.format).keepBlanks with
        | .error e => (.error (.scan source e), w)
        | .ok s => (.ok (), { w with
            output := w.output ++ dump format (1 < a.inputs.length) source.name s }) := by
  have hworld := ConvertArguments.asks_readSource input w
  rw [work, runInput, run_bind]
  rcases hr : w.run (Command.readSource input) with ⟨f | source, w'⟩ <;> rw [hr] at hworld
  · obtain rfl : w' = w := hworld
    rfl
  · obtain rfl : w' = w := hworld
    dsimp only
    rw [run_bind, run_except, printed]
    rcases scan source.content a.start _ with e | s <;> rfl

/-- **The work on an input prints the dump of its scan,** whatever was printed and reported
before. -/
theorem prints_work (a : TokensArguments) (settings : Settings) (format : OutputFormat)
    (w : World) (input : Path) :
    Prints (a.work settings format) w input (a.dumpOf? settings format w input) := by
  have hrun := fun v (hv : w.Alike v) => hv.readSource_eq input ▸ run_work a settings format v input
  unfold dumpOf? scanOf?
  generalize (w.run (Command.readSource input)).1 = read at hrun ⊢
  cases read with
  | error f => exact fun v hv => ⟨f, hrun v hv⟩
  | ok source =>
    dsimp only at hrun ⊢
    generalize scan source.content a.start _ = scanned at hrun ⊢
    cases scanned with
    | error e => exact fun v hv => ⟨.scan source e, hrun v hv⟩
    | ok s => exact hrun

/-! ### A run -/

theorem run_of_valid (hinputs : Command.validateInputs a.inputs = .ok ())
    (hformat : OutputFormat.ofName (settings.tokensWith a.keepBlanks a.format).format =
      .ok format) :
    w.run (a.run settings) = w.run (Command.forEachInput (a.work settings format) a.inputs) := by
  rw [TokensArguments.run, run_bind, run_except, hinputs]
  dsimp only
  rw [run_bind, run_except, hformat]

/-- **What a run prints:** the dumps of the inputs that can be read and scanned, in order. On the
others it fails. -/
theorem run_prints {v : World} (hv : w.Alike v)
    (hinputs : Command.validateInputs a.inputs = .ok ())
    (hformat : OutputFormat.ofName (settings.tokensWith a.keepBlanks a.format).format =
      .ok format) :
    w.Alike (v.run (a.run settings)).2 ∧
    (v.run (a.run settings)).2.output = v.output ++
      (a.inputs.filter fun input => (a.scanOf? settings w input).isSome).flatMap
        (fun input => (a.dumpOf? settings format w input).getD []) ∧
    failing (a.work settings format) v a.inputs =
      a.inputs.filter fun input => (a.scanOf? settings w input).isNone := by
  have hprints := fun input (_ : input ∈ a.inputs) => prints_work a settings format w input
  obtain ⟨halike, houtput, hfailing⟩ := run_of_prints hprints hv
  rw [run_of_valid hinputs hformat, (run_forEachInput_eq _ v a.inputs).2]
  simp only [dumpOf?, Option.isSome_map, Option.isNone_map] at houtput hfailing
  exact ⟨halike, houtput, hfailing⟩

theorem validateInputs_singleton (input : Path) : Command.validateInputs [input] = .ok () := by
  have hcount : ¬ 1 < [input].count Path.standard := Nat.not_lt.mpr List.count_le_length
  rw [Command.validateInputs, if_neg (List.cons_ne_nil _ _), if_neg hcount]

/-- **What is printed for an input alone** is its dump without a heading. -/
theorem printedAlone_eq (hformat : OutputFormat.ofName
      (settings.tokensWith a.keepBlanks a.format).format = .ok format) :
    a.printedAlone settings w input =
      ((a.scanOf? settings w input).map fun x => dump format false x.1 x.2).getD [] := by
  have hscan : ({ a with inputs := [input] } : TokensArguments).scanOf? settings w input =
      a.scanOf? settings w input := rfl
  obtain ⟨-, houtput, -⟩ := run_prints (a := { a with inputs := [input] }) (w := w)
    (v := { w with output := [] }) ⟨rfl, rfl, rfl⟩ (validateInputs_singleton input) hformat
  rw [printedAlone, houtput]
  cases hx : a.scanOf? settings w input with
  | none => simp [hscan, hx]
  | some x => simp [hscan, hx, dumpOf?]

end TokensArguments

open World TokensArguments

/-- **The inputs are independent of each other.** Of the inputs that can be read and scanned, in
order, what is printed for each alone is printed, with a heading if there are several inputs and
the format is text. Of the others nothing is printed, and the run tells how many they are. -/
theorem run_prints_each_alone {w : World} {a : TokensArguments} {settings : Settings}
    {format : OutputFormat} (hinputs : Command.validateInputs a.inputs = .ok ())
    (hformat : OutputFormat.ofName (settings.tokensWith a.keepBlanks a.format).format =
      .ok format) :
    (w.run (a.run settings)).2.output = w.output ++
      (a.inputs.filter fun input => (a.scanOf? settings w input).isSome).flatMap
        (fun input => a.heading format input ++ a.printedAlone settings w input) ∧
    (∀ input, a.printedAlone settings w input =
      ((a.scanOf? settings w input).map fun x => dump format false x.1 x.2).getD []) ∧
    w.Alike (w.run (a.run settings)).2 ∧
    failing (a.work settings format) w a.inputs =
      a.inputs.filter (fun input => (a.scanOf? settings w input).isNone) ∧
    EndsWith (a.inputs.filter fun input => (a.scanOf? settings w input).isNone).length
      (w.run (a.run settings)).1 := by
  obtain ⟨halike, houtput, hfailing⟩ := run_prints (w := w) ⟨rfl, rfl, rfl⟩ hinputs hformat
  have hend := (run_forEachInput_eq (a.work settings format) w a.inputs).1
  rw [hfailing, ← run_of_valid hinputs hformat] at hend
  refine ⟨?_, fun _ => printedAlone_eq hformat, halike, hfailing, hend⟩
  rw [houtput]
  refine congrArg (w.output ++ ·) (List.flatMap_congr fun input hin => ?_)
  obtain ⟨x, hx⟩ := Option.isSome_iff_exists.mp (List.mem_filter.mp hin).2
  rw [printedAlone_eq hformat, dumpOf?, hx]
  exact dump_eq_heading_append hx

/-- Of four inputs the second is missing and the last can not be scanned. -/
theorem run_prints_each_alone_amid :
    let w : World := { tree := ⟨[(["a.st".toList], .file (.text ['x'])),
      (["b.st".toList], .file (.text ['\'']))]⟩, input := .text ['^'] }
    let a : TokensArguments :=
      { inputs := ["a.st".toList, "c.st".toList, "-".toList, "b.st".toList] }
    (w.run (a.run {})).2.output =
      ("==> a.st <==\n".toList ++ a.printedAlone {} w "a.st".toList) ++
        ("==> <stdin> <==\n".toList ++ a.printedAlone {} w "-".toList) ∧
    a.printedAlone {} w "a.st".toList = "identifier    \"x\"\nend 1\n".toList ∧
    EndsWith 2 (w.run (a.run {})).1 := by
  intro w a
  have hscanned : (a.inputs.filter fun input => (a.scanOf? {} w input).isSome) =
      ["a.st".toList, "-".toList] := by decide +kernel
  have hfailed : (a.inputs.filter fun input => (a.scanOf? {} w input).isNone).length = 2 := by
    decide +kernel
  obtain ⟨houtput, -, -, -, hend⟩ := @run_prints_each_alone w a {} .text rfl rfl
  have hfile : a.heading .text "a.st".toList = "==> a.st <==\n".toList := by decide +kernel
  have hstandard : a.heading .text "-".toList = "==> <stdin> <==\n".toList := by decide +kernel
  rw [hscanned, List.flatMap_cons, List.flatMap_singleton, hfile, hstandard] at houtput
  rw [hfailed] at hend
  exact ⟨houtput, by decide +kernel, hend⟩

end Smalltalk
