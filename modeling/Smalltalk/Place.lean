import Smalltalk.Failure

/-! # The place where a run happens

Commands ask a few things of their surroundings: what is found at a path, to read and write texts,
to create directories, and to print. `Place` collects these requests, so that commands can be run
on the machine or on a file tree held in memory.

* `Place.createDirectories`: creates a directory together with the directories above it. -/

namespace Smalltalk

/-- What is found at a path. -/
inductive FileStatus where
  | file
  | directory
  deriving DecidableEq

/-- What commands can ask of their surroundings. -/
class Place (m : Type → Type) where
  /-- What is found at a path, if anything. -/
  status : Path → m (Option FileStatus)
  /-- Something is found at both paths, and it is the same. -/
  sameLocation : Path → Path → m Bool
  /-- The text of a file. -/
  readText : Path → m (Except SystemError Text)
  /-- Creates one directory. -/
  createDirectory : Path → m (Except SystemError Unit)
  /-- Creates a file with a text, or gives a file another text. -/
  writeText : Path → Text → m (Except SystemError Unit)
  /-- All of standard input. -/
  readInput : m (Except SystemError Text)
  /-- Prints to standard output. -/
  print : Text → m Unit
  /-- Prints to standard error. -/
  report : Text → m Unit

namespace Place

variable {m : Type → Type} [Monad m] [Place m]

/-- Something is found at the path. -/
def isThere (path : Path) : m Bool := do return (← status path).isSome

/-- A directory is found at the path. -/
def isDirectory (path : Path) : m Bool := do return (← status path) = some .directory

/-- The outcome of creating a directory; one that is there already is as good as a new one. -/
def orThere (path : Path) : Except SystemError Unit → m (Except SystemError Unit)
  | .ok () => return .ok ()
  | .error e => do return if ← isDirectory path then .ok () else .error e

/-- Creates the first of several directories, each of which is the one above its predecessor; those
above are created first if they are missing. -/
def createChain : List Path → m (Except SystemError Unit)
  | [] => return .ok ()
  | path :: above => do
    match ← createDirectory path with
    | .error .notFound =>
      match ← createChain above with
      | .error e => return .error e
      | .ok () => orThere path (← createDirectory path)
    | outcome => orThere path outcome

/-- **Creates a directory and the directories above it,** as far as they are missing. -/
def createDirectories (path : Path) : m (Except SystemError Unit) := createChain path.ancestors

end Place

end Smalltalk
