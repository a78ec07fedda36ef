import Smalltalk.Arguments

/-! # The program

The program reads its command line, loads the settings and carries out the command. It ends with
status 0 if all went well, 1 if something failed, and 2 if the command line makes no sense. -/

namespace Smalltalk.Program

variable {m : Type → Type} [Monad m] [Place m]

/-- The version of the program. -/
def version : Text := "0.1.0".toList

/-- How a level is used. -/
def usage : Level → Text
  | .program => "Usage: stct [OPTIONS] <COMMAND>\n\nCommands: tokens, convert, help\n".toList
  | .tokens => "Usage: stct tokens [OPTIONS] <INPUT>...\n".toList
  | .convert => "Usage: stct convert [OPTIONS] <INPUT>...\n".toList

/-- Carries out a command. -/
def execute (settings : Settings) : Command → ExceptT Failure m Unit
  | .tokens arguments => arguments.run settings
  | .convert arguments => arguments.run settings

/-- Loads the settings and carries out the command. -/
def carryOut (environment : Environment) (invocation : Invocation) : ExceptT Failure m Unit := do
  let settings ← Settings.load environment invocation.settings
  execute settings invocation.command

/-- **Runs the program,** which gives its exit status. -/
def run (environment : Environment) (words : List Text) : m Nat := do
  match Invocation.parse environment words with
  | .error (.help level) =>
    Place.print (usage level)
    return 0
  | .error (.version level) =>
    Place.print (level.fullName ++ [' '] ++ version ++ ['\n'])
    return 0
  | .error (.usage e) =>
    Place.report ("error: ".toList ++ e.message ++ ['\n'])
    return 2
  | .ok invocation =>
    match ← (carryOut environment invocation).run with
    | .ok () => return 0
    | .error f =>
      Place.report ("error: ".toList ++ f.message ++ ['\n'])
      return 1

end Smalltalk.Program
