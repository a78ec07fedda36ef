import Smalltalk.Place

/-! # Inputs of a command

A command works on its inputs in order. An input is a path, and `-` is standard input, which can be
named only once. A failure on one input is reported at once and does not keep the others from being
worked on; in the end the failures are counted.

* `Command.readSource`: the source an input stands for.
* `Command.forEachInput`: works on all inputs. -/

namespace Smalltalk.Command

variable {m : Type → Type} [Monad m] [Place m]

/-- The outcome of a request, with a refusal as a failure of the run. -/
def attempt {α : Type} (failure : SystemError → Failure) (request : m (Except SystemError α)) :
    ExceptT Failure m α :=
  ExceptT.mk do return (← request).mapError failure

/-- There is an input, and standard input is named at most once. -/
def validateInputs (inputs : List Path) : Except Failure Unit :=
  if inputs = [] then .error .noInputs
  else if 1 < inputs.count Path.standard then .error .repeatedInput
  else .ok ()

/-- The name of standard input in reports. -/
def standardInputName : Text := "<stdin>".toList

/-- **The source of an input.** -/
def readSource (input : Path) : ExceptT Failure m Source := do
  if input = Path.standard then
    return ⟨standardInputName, ← attempt .system Place.readInput⟩
  else
    match ← Place.status (m := m) input with
    | none => throw (.missingInput input)
    | some .directory => throw (.inputNotFile input)
    | some .file => return ⟨input, ← attempt (.unreadable input) (Place.readText input)⟩

/-- What is reported about a failure on an input. -/
def failureReport (input : Path) (f : Failure) : Text :=
  match f.report? with
  | some report => report
  | none => "error: ".toList ++ input ++ ": ".toList ++ f.message ++ ['\n']

/-- Works on every input, reports the failures, and counts them. -/
def countFailures (work : Path → ExceptT Failure m Unit) : List Path → m Nat
  | [] => return 0
  | input :: inputs => do
    match ← (work input).run with
    | .ok () => countFailures work inputs
    | .error f =>
      Place.report (failureReport input f)
      return (← countFailures work inputs) + 1

/-- **Works on every input;** it fails in the end if the work on some input failed. -/
def forEachInput (work : Path → ExceptT Failure m Unit) (inputs : List Path) :
    ExceptT Failure m Unit := do
  let failed ← countFailures (m := m) work inputs
  if failed = 0 then return () else throw (.inputsFailed failed)

end Smalltalk.Command
