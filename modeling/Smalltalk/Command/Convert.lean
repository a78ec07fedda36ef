import Smalltalk.Command.Input
import Smalltalk.Settings

/-! # Converting files

The command renders each input as a script. Without an output argument the script goes next to the
input, under the same stem; standard input goes to standard output. The output argument is `-`, a
directory for all scripts, or one file. What exists is overwritten only by force, and an output that
leads to its own input is refused.

* `ConvertArguments.destination`: where the script of an input goes.
* `ConvertArguments.prepare`: the script of an input, with every check made and nothing written.
* `ConvertArguments.runInput`: the work on one input. -/

namespace Smalltalk

/-- The arguments for converting files. -/
structure ConvertArguments where
  inputs : List Path
  output : Option Path := none
  force : Bool := false
  deriving DecidableEq

/-- Where the script of an input goes. -/
inductive Destination where
  | standardOutput
  | file (path : Path)
  deriving DecidableEq

namespace ConvertArguments

variable {m : Type → Type} [Monad m] [Place m]

/-! ### Destinations -/

/-- The output is a directory: one that exists, or a path without an extension where nothing is. -/
def isDirectoryTarget (output : Path) : m Bool := do
  match ← Place.status output with
  | some .directory => return true
  | some .file => return false
  | none => return output.extension?.isNone

/-- The stem that names the script of an input in a directory. -/
def stem (input : Path) : Except Failure Text :=
  if input = Path.standard then .ok "stdin".toList
  else match input.fileStem? with
    | some stem => .ok stem
    | none => .error (.invalidPath input)

/-- **Where the script of an input goes,** given whether the output is a directory. -/
def destinationIn (output : Option Path) (isDirectory : Bool) (extension : Text) (input : Path) :
    Except Failure Destination :=
  match output with
  | none =>
    if input = Path.standard then .ok .standardOutput
    else .ok (.file (input.withExtension extension))
  | some output =>
    if output = Path.standard then .ok .standardOutput
    else if isDirectory then
      (stem input).map fun stem => .file (output.join (stem ++ '.' :: extension))
    else .ok (.file output)

/-- Where the script of an input goes. -/
def destination (a : ConvertArguments) (extension : Text) (input : Path) :
    ExceptT Failure m Destination := do
  let isDirectory ← match a.output with
    | none => pure false
    | some output => isDirectoryTarget (m := m) output
  destinationIn a.output isDirectory extension input

/-! ### Checks -/

/-- Several inputs do not go into one file. -/
def validateOutput (a : ConvertArguments) : ExceptT Failure m Unit := do
  match a.output with
  | none => return ()
  | some output =>
    if 1 < a.inputs.length ∧ output ≠ Path.standard then
      unless ← isDirectoryTarget (m := m) output do throw (.outputNotDirectory output)

/-- Two paths for the same file, by their components or by where they lead. -/
def sameFile (p q : Path) : m Bool := do
  if p.Same q then return true else Place.sameLocation p q

/-- A script may go to a file that is not its input, and that does not exist or is to be
overwritten. -/
def checkWritable (force : Bool) (input output : Path) : ExceptT Failure m Unit := do
  if input ≠ Path.standard then
    if ← sameFile (m := m) input output then throw (.outputIsInput output)
  unless force do
    if ← Place.isThere (m := m) output then throw (.outputExists output)

/-! ### The work -/

/-- The script of a source. -/
def scriptOf (source : Source) : Except Failure Text :=
  (render source.content).mapError (.render source)

/-- Writes a script to its destination. -/
def deliver (script : Text) : Destination → ExceptT Failure m Unit
  | .standardOutput => Place.print (m := m) script
  | .file path => do
    match path.parent? with
    | none | some [] => pure ()
    | some parent => Command.attempt .system (Place.createDirectories parent)
    Command.attempt (.unwritable path) (Place.writeText path script)

/-- The script of one input and where it goes, with every check made and nothing written. -/
def prepare (a : ConvertArguments) (settings : ConvertSettings) (input : Path) :
    ExceptT Failure m (Text × Destination) := do
  let destination ← a.destination settings.extension input
  match destination with
  | .standardOutput => pure ()
  | .file path => checkWritable settings.force input path
  let source ← Command.readSource input
  let script ← scriptOf source
  return (script, destination)

/-- Converts one input. -/
def runInput (a : ConvertArguments) (settings : ConvertSettings) (input : Path) :
    ExceptT Failure m Unit := do
  let (script, destination) ← a.prepare settings input
  deliver script destination

/-- **Converts all inputs.** -/
def run (a : ConvertArguments) (settings : Settings) : ExceptT Failure m Unit := do
  Command.validateInputs a.inputs
  a.validateOutput
  Command.forEachInput (a.runInput (settings.convertWith a.force)) a.inputs

end ConvertArguments

end Smalltalk
