import Smalltalk.Program

/-! # The program on the machine

The requests of a command are passed on to the operating system, and the program is started with the
words of the command line. Something is at a path if it can be opened, and the system refuses to
read from it if it is a directory. -/

namespace Smalltalk.Machine

/-- The answer of the system to a request that it refused. -/
def systemError : IO.Error → SystemError
  | .noFileOrDirectory _ _ _ => .notFound
  | .alreadyExists _ _ _ => .alreadyExists
  | .inappropriateType _ 20 _ => .notDirectory
  | .inappropriateType _ 21 _ => .isDirectory
  | .invalidArgument _ 36 _ => .nameTooLong
  | e => .other (toString e).toList

/-- The outcome of a request. -/
def outcome {α : Type} (request : IO α) : IO (Except SystemError α) := do
  try return .ok (← request) catch e => return .error (systemError e)

/-- The outcome of a request about a path. A path with a NUL never reaches the system, which would
take it to end there. -/
def outcomeAt {α : Type} (p : Path) (request : String → IO α) : IO (Except SystemError α) :=
  if '\x00' ∈ p then return .error .nulInName else outcome (request (String.ofList p))

/-- Bytes as a text. -/
def decode (bytes : ByteArray) : Except SystemError Text :=
  match String.fromUTF8? bytes with
  | some text => .ok text.toList
  | none => .error .notText

/-- Commands run on the machine. -/
instance : Place IO where
  status path := do
    match ← outcomeAt path fun name => IO.FS.Handle.mk name .read with
    | .error _ => return none
    | .ok handle =>
      match ← outcome (handle.read 1) with
      | .error .isDirectory => return some .directory
      | _ => return some .file
  sameLocation p q := do
    match ← outcomeAt p (IO.FS.realPath ·), ← outcomeAt q (IO.FS.realPath ·) with
    | .ok l, .ok k => return l == k
    | _, _ => return false
  readText path := do return (← outcomeAt path (IO.FS.readBinFile ·)).bind decode
  createDirectory path := outcomeAt path (IO.FS.createDir ·)
  writeText path text := outcomeAt path (IO.FS.writeFile · (String.ofList text))
  readInput := do
    match ← outcome (do (← IO.getStdin).readToEnd) with
    | .ok text => return .ok text.toList
    | .error _ => return .error .notText
  print text := IO.print (String.ofList text)
  report text := IO.eprint (String.ofList text)

/-- The variables of the environment. -/
def environment : IO Environment := do
  let value (name : String) : IO (Option Text) := do return (← IO.getEnv name).map (·.toList)
  return {
    settings := ← value "STCT_CONFIG"
    verbose := ← value "STCT_VERBOSE"
    noColor := ← value "STCT_NO_COLOR"
    home := ← value "HOME"
    settingsHome := ← value "XDG_CONFIG_HOME" }

end Smalltalk.Machine

/-- Runs the program with the words of the command line. -/
def main (words : List String) : IO UInt32 := do
  let status : Nat ←
    Smalltalk.Program.run (← Smalltalk.Machine.environment) (words.map (·.toList))
  return status.toUInt32
