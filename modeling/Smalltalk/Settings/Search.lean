import Smalltalk.Command.Input
import Smalltalk.Settings

/-! # Where settings are found

A settings file is named by an argument or by a variable of the environment, or it is the first one
found in the directory of the run, below the home directory, and in the user's directory for
settings. Where there is none, the defaults hold. -/

namespace Smalltalk

/-- The variables of the environment that a run looks at. -/
structure Environment where
  /-- The settings file. -/
  settings : Option Path := none
  /-- The switch for progress notes. -/
  verbose : Option Text := none
  /-- The switch against colours. -/
  noColor : Option Text := none
  /-- The home directory. -/
  home : Option Path := none
  /-- The user's directory for settings. -/
  settingsHome : Option Path := none
  deriving DecidableEq

namespace Environment

/-- The home directory, if it is named. -/
def homeDirectory? (e : Environment) : Option Path := e.home.filter (· ≠ [])

/-- The user's directory for settings: an absolute path, or below the home directory. -/
def settingsDirectory? (e : Environment) : Option Path :=
  match e.settingsHome.filter Path.isAbsolute with
  | some directory => some directory
  | none => e.homeDirectory?.map (·.join ".config".toList)

/-- The files where settings are looked for, in order. -/
def settingsFiles (e : Environment) : List Path :=
  let file := "stct.toml".toList
  let below (directory : Path) : Path := (directory.join "stct".toList).join file
  file :: (e.homeDirectory?.map fun home => below (home.join ".config".toList)).toList ++
    (e.settingsDirectory?.map below).toList

end Environment

namespace Settings

variable {m : Type → Type} [Monad m] [Place m]

/-- The settings of a file. -/
def readFile (path : Path) : ExceptT Failure m Settings := do
  unless ← Place.isThere (m := m) path do throw (.settingsMissing path)
  let document ← Command.attempt .system (Place.readText path)
  Settings.parse document

/-- The settings of the first file that exists, or the defaults. -/
def readFirst : List Path → ExceptT Failure m Settings
  | [] => return {}
  | path :: paths => do
    if ← Place.isThere (m := m) path then readFile path else readFirst paths

/-- **The settings of a run.** -/
def load (environment : Environment) (path : Option Path) : ExceptT Failure m Settings :=
  match path with
  | some path => readFile path
  | none => readFirst environment.settingsFiles

end Settings

end Smalltalk
