import Smalltalk.Text

/-! # Paths

A path is its text; names in it are divided by slashes. Repeated slashes, a slash at the end and
single dots behind the front count for nothing, so two texts may stand for the same components. The
file name is the last component if that is an ordinary name; its extension is what follows its last
dot, unless that dot is also its first character.

* `Path.components`: what a path stands for, whatever its spelling.
* `Path.join`, `Path.withExtension`, `Path.parent?`: they keep the spelling of what they leave. -/

namespace Smalltalk

/-- A path, as it is written. -/
abbrev Path := Text

namespace Path

/-- One step of a path. -/
inductive Component where
  /-- The root of all paths. -/
  | root
  /-- A single dot at the front. -/
  | current
  /-- Two dots. -/
  | parent
  /-- An ordinary name. -/
  | normal (name : Text)
  deriving DecidableEq

/-- The path starts at the root. -/
def isAbsolute (p : Path) : Bool := p.head? = some '/'

/-- The path ends with a slash. -/
def endsWithSlash (p : Path) : Bool := p.getLast? = some '/'

/-- The names between the slashes, dots included. -/
def segments (p : Path) : List Text := (p.splitAll '/').filter (· ≠ [])

/-- The component a name stands for behind the front. -/
def component (name : Text) : Component := if name = ['.', '.'] then .parent else .normal name

/-- The components of a path. -/
def components (p : Path) : List Component :=
  let body := ((segments p).filter (· ≠ ['.'])).map component
  if isAbsolute p then .root :: body
  else if (segments p).head? = some ['.'] then .current :: body
  else body

/-- Two paths with the same components. -/
def Same (p q : Path) : Prop := components p = components q

instance (p q : Path) : Decidable (Same p q) := by unfold Same; infer_instance

/-! ### File names -/

/-- The last component, if it is an ordinary name. -/
def fileName? (p : Path) : Option Text :=
  match (components p).getLast? with
  | some (.normal name) => some name
  | _ => none

/-- The parts of a name before and after its last dot, if there is a part before it. -/
def cutExtension (name : Text) : Text × Option Text :=
  match Text.cut '.' name.reverse with
  | (_, none) => (name, none)
  | (extension, some stem) =>
    if stem = [] then (name, none) else (stem.reverse, some extension.reverse)

/-- The file name without its extension. -/
def fileStem? (p : Path) : Option Text := (fileName? p).map fun name => (cutExtension name).1

/-- What follows the last dot of the file name. -/
def extension? (p : Path) : Option Text := (fileName? p).bind fun name => (cutExtension name).2

/-! ### Making paths -/

/-- Drops slashes, and single dots behind slashes, from the front of a reversed path. -/
def dropReversedTail : Text → Text
  | '/' :: t => dropReversedTail t
  | '.' :: '/' :: t => dropReversedTail t
  | t => t

/-- The path without slashes, and single dots behind slashes, at its end. -/
def trimTail (p : Path) : Path := (dropReversedTail p.reverse).reverse

/-- The path of `name` below `p`. -/
def join (p : Path) (name : Path) : Path :=
  if isAbsolute name ∨ p = [] then name
  else if endsWithSlash p then p ++ name
  else p ++ '/' :: name

/-- The path with an extension behind the stem of its file name; a path without a file name stays as
it is. -/
def putExtension (p : Path) (extension : Text) : Path :=
  match fileName? p with
  | none => p
  | some name =>
    let front := (trimTail p).take ((trimTail p).length - name.length)
    front ++ (cutExtension name).1 ++ '.' :: extension

/-- The same path with another extension. The characters of the old one go first, from the end of
the path; what they leave of `..b` is no file name any more, so that it stays `..`. -/
def withExtension (p : Path) (extension : Text) : Path :=
  putExtension (p.take (p.length - ((extension? p).getD []).length)) extension

/-- The path without its last component. -/
def parent? (p : Path) : Option Path :=
  match (components p).getLast? with
  | none | some .root => none
  | some _ =>
    let front := trimTail (((trimTail p).reverse.dropWhile (· ≠ '/')).reverse)
    some (if front = [] ∧ isAbsolute p then ['/'] else front)

/-- The path and those above it, the longest first; the bound is on their number. -/
def ancestorsWithin : Nat → Path → List Path
  | 0, _ => []
  | n + 1, p => if p = [] then [] else p :: ((parent? p).map (ancestorsWithin n)).getD []

/-- The path and those above it, the longest first. A path is shorter than those below it. -/
def ancestors (p : Path) : List Path := ancestorsWithin p.length p

/-- The path that stands for standard input and standard output. -/
def standard : Path := ['-']

end Path

end Smalltalk
