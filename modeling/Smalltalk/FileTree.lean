import Smalltalk.Place

/-! # File trees

A file tree says what is found at every location below a root. A path is followed from a directory
step by step: every step needs a directory to start from and a name that is not too long, `.` stays
and `..` goes up, and only the last step may lead to something that is not there yet.

A `World` is a file tree together with the directory where a run happens and its standard streams;
`World.instPlace` makes it a place for commands.

* `FileTree.get?_set`: setting one location changes nothing elsewhere.
* `FileTree.locate`: where a path leads. -/

namespace Smalltalk

/-- The names on the way from the root. -/
abbrev Location := List Text

/-- What a file holds: a text, or bytes that are no text. -/
inductive Content where
  | text (text : Text)
  | binary (bytes : List UInt8)
  deriving DecidableEq

/-- What is found at a location. -/
inductive FileEntry where
  | file (content : Content)
  | directory
  deriving DecidableEq

/-- Files and directories by location; the root is always a directory. -/
structure FileTree where
  entries : List (Location × FileEntry) := []
  deriving DecidableEq

namespace FileTree

/-! ### Locations -/

/-- What is found at a location. -/
def get? (t : FileTree) (l : Location) : Option FileEntry :=
  if l = [] then some .directory else (t.entries.find? (·.1 = l)).map (·.2)

/-- The tree with something else at one location. -/
def set (t : FileTree) (l : Location) (e : FileEntry) : FileTree :=
  ⟨(l, e) :: t.entries.filter (·.1 ≠ l)⟩

/-- The directory at a location, to go on from. -/
def expectDirectory (t : FileTree) (l : Location) : Except SystemError Unit :=
  match t.get? l with
  | some .directory => .ok ()
  | some (.file _) => .error .notDirectory
  | none => .error .notFound

/-- One step from a directory. -/
def step (l : Location) (name : Text) : Location :=
  if name = ['.'] then l
  else if name = ['.', '.'] then l.dropLast
  else l ++ [name]

/-- The greatest number of bytes in a name. -/
def maxNameLength : Nat := 255

/-- The greatest number of bytes in a path. -/
def maxPathLength : Nat := 4095

/-- Follows names from a directory; what the last one leads to need not be there. -/
def follow (t : FileTree) : Location → List Text → Except SystemError Location
  | l, [] => .ok l
  | l, name :: names => do
    t.expectDirectory l
    if maxNameLength < name.byteLength then .error .nameTooLong
    else t.follow (step l name) names

/-- Follows names of a path from where the path starts. The empty path leads nowhere. -/
def walk (t : FileTree) (here : Location) (p : Path) (names : List Text) :
    Except SystemError Location :=
  if '\x00' ∈ p then .error .nulInName
  else if p = [] then .error .notFound
  else if maxPathLength < p.byteLength then .error .nameTooLong
  else t.follow (if p.isAbsolute then [] else here) names

/-- Where a path leads from a directory. -/
def locate (t : FileTree) (here : Location) (p : Path) : Except SystemError Location :=
  t.walk here p p.segments

/-! ### Requests -/

/-- What a path leads to; a path that ends with a slash leads to a directory only. -/
def find (t : FileTree) (here : Location) (p : Path) :
    Except SystemError (Location × FileEntry) := do
  let l ← t.locate here p
  match t.get? l with
  | none => .error .notFound
  | some .directory => return (l, .directory)
  | some (.file content) =>
    if p.endsWithSlash then .error .notDirectory else return (l, .file content)

/-- What is found at a path. -/
def status (t : FileTree) (here : Location) (p : Path) : Option FileStatus :=
  match t.find here p with
  | .ok (_, .file _) => some .file
  | .ok (_, .directory) => some .directory
  | .error _ => none

/-- Both paths lead to the same thing. -/
def sameLocation (t : FileTree) (here : Location) (p q : Path) : Bool :=
  match t.find here p, t.find here q with
  | .ok (l, _), .ok (k, _) => l = k
  | _, _ => false

/-- The text of the file at a path. -/
def readText (t : FileTree) (here : Location) (p : Path) : Except SystemError Text := do
  match ← t.find here p with
  | (_, .file (.text text)) => return text
  | (_, .file (.binary _)) => .error .notText
  | (_, .directory) => .error .isDirectory

/-- The last name of a path is no step to a name of its own. -/
def endsWithDots (p : Path) : Bool :=
  p.segments.getLast? = some ['.'] || p.segments.getLast? = some ['.', '.']

/-- The tree with a new directory. -/
def createDirectory (t : FileTree) (here : Location) (p : Path) :
    Except SystemError FileTree := do
  let l ← t.locate here p
  if endsWithDots p || (t.get? l).isSome then .error .alreadyExists
  else return t.set l .directory

/-- The tree with a text in a file. A slash at the end asks for a directory, whatever the last name
is. -/
def writeText (t : FileTree) (here : Location) (p : Path) (text : Text) :
    Except SystemError FileTree := do
  if p.endsWithSlash then
    t.expectDirectory (← t.walk here p p.segments.dropLast)
    .error .isDirectory
  else
    let l ← t.locate here p
    if endsWithDots p || t.get? l = some .directory then .error .isDirectory
    else return t.set l (.file (.text text))

/-! ### What a change does -/

theorem get?_nil (t : FileTree) : t.get? [] = some .directory := rfl

@[simp] theorem get?_set_self (t : FileTree) {l : Location} (e : FileEntry) (h : l ≠ []) :
    (t.set l e).get? l = some e := by
  simp [get?, set, h]

/-- **Setting one location changes nothing elsewhere.** -/
theorem get?_set (t : FileTree) {l k : Location} (e : FileEntry) (h : k ≠ l) :
    (t.set l e).get? k = t.get? k := by
  unfold get? set
  split
  · rfl
  · have hl : ¬ l = k := fun hlk => h hlk.symm
    rw [List.find?_cons_of_neg (by simpa using hl), List.find?_filter]
    congr 2
    funext x
    by_cases hx : x.1 = k <;> simp [hx, h]

end FileTree

/-! ### Worlds -/

/-- A file tree, the directory where a run happens, and the standard streams. -/
structure World where
  tree : FileTree := {}
  here : Location := []
  input : Content := .text []
  output : Text := []
  errors : Text := []
  deriving DecidableEq

namespace World

/-- Asks for a changed tree and keeps the old one if it is refused. -/
def change (f : FileTree → Location → Except SystemError FileTree) :
    StateM World (Except SystemError Unit) := fun w =>
  match f w.tree w.here with
  | .ok tree => (.ok (), { w with tree })
  | .error e => (.error e, w)

/-- Commands run in a world. -/
instance instPlace : Place (StateM World) where
  status path := do return (← get).tree.status (← get).here path
  sameLocation p q := do return (← get).tree.sameLocation (← get).here p q
  readText path := do return (← get).tree.readText (← get).here path
  createDirectory path := change fun tree here => tree.createDirectory here path
  writeText path text := change fun tree here => tree.writeText here path text
  readInput := do
    match (← get).input with
    | .text text => return .ok text
    | .binary _ => return .error .notText
  print text := modify fun w => { w with output := w.output ++ text }
  report text := modify fun w => { w with errors := w.errors ++ text }

end World

end Smalltalk
