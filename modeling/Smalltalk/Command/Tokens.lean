import Smalltalk.Command.Input
import Smalltalk.Dump
import Smalltalk.Settings

/-! # Printing tokens

The command scans each input from an offset and prints its tokens in the chosen format. With
several inputs in text format, each one is announced by its name. Nothing is printed of an input
that can not be read or scanned. -/

namespace Smalltalk

/-- The arguments for printing tokens. -/
structure TokensArguments where
  inputs : List Path
  keepBlanks : Bool := false
  start : Nat := 0
  format : Option Text := none
  deriving DecidableEq

namespace TokensArguments

variable {m : Type → Type} [Monad m] [Place m]

/-- A scan in print, announced by the name of its source if `announced`. -/
def dump (format : OutputFormat) (announced : Bool) (name : Text) (scan : Scan) : Text :=
  match format with
  | .text =>
    (if announced then "==> ".toList ++ name ++ " <==\n".toList else []) ++ scan.lines
  | .json => scan.json name

/-- What is printed for a source. -/
def printed (a : TokensArguments) (keepBlanks : Bool) (format : OutputFormat) (source : Source) :
    Except Failure Text :=
  match scan source.content a.start keepBlanks with
  | .ok s => .ok (dump format (1 < a.inputs.length) source.name s)
  | .error e => .error (.scan source e)

/-- Prints the tokens of one input. -/
def runInput (a : TokensArguments) (keepBlanks : Bool) (format : OutputFormat) (input : Path) :
    ExceptT Failure m Unit := do
  let source ← Command.readSource input
  let text ← a.printed keepBlanks format source
  Place.print (m := m) text

/-- **Prints the tokens of all inputs.** -/
def run (a : TokensArguments) (settings : Settings) : ExceptT Failure m Unit := do
  Command.validateInputs a.inputs
  let inEffect := settings.tokensWith a.keepBlanks a.format
  let format ← OutputFormat.ofName inEffect.format
  Command.forEachInput (a.runInput inEffect.keepBlanks format) a.inputs

end TokensArguments

end Smalltalk
