import Smalltalk.Diagnostic
import Smalltalk.Path

/-! # Failures of a run

Everything that can go wrong in a run is one of the causes below. A failure about a source has a
report with the line it concerns; every failure has a message, which names its category first. -/

namespace Smalltalk

/-- What the operating system answers to a request about files. -/
inductive SystemError where
  | notFound
  | alreadyExists
  | notDirectory
  | isDirectory
  /-- A name or the whole path is longer than the system takes. -/
  | nameTooLong
  /-- A path with the character that ends a path for the system. -/
  | nulInName
  /-- The bytes are no text. -/
  | notText
  /-- Any other answer, in the system's words. -/
  | other (message : Text)
  deriving DecidableEq

namespace SystemError

/-- The system's words. -/
def message : SystemError → Text
  | notFound => "No such file or directory (os error 2)".toList
  | alreadyExists => "File exists (os error 17)".toList
  | notDirectory => "Not a directory (os error 20)".toList
  | isDirectory => "Is a directory (os error 21)".toList
  | nameTooLong => "File name too long (os error 36)".toList
  | nulInName => "file name contained an unexpected NUL byte".toList
  | notText => "stream did not contain valid UTF-8".toList
  | other message => message

end SystemError

/-- Why a run, or its work on one input, fails. -/
inductive Failure where
  /-- The settings file that was named does not exist. -/
  | settingsMissing (path : Path)
  /-- The settings file is not well formed, or a value has the wrong type. -/
  | settingsMalformed
  /-- The settings ask for a format that does not exist. -/
  | settingsFormat (format : Text)
  /-- The settings ask for an extension that is no part of a file name. -/
  | settingsExtension (extension : Text)
  /-- A format that does not exist. -/
  | unknownFormat (format : Text)
  | noInputs
  /-- Standard input is named more than once. -/
  | repeatedInput
  | missingInput (path : Path)
  | inputNotFile (path : Path)
  /-- Several inputs are to go into one file. -/
  | outputNotDirectory (path : Path)
  /-- The output would overwrite the input. -/
  | outputIsInput (path : Path)
  /-- The output exists and is not to be overwritten. -/
  | outputExists (path : Path)
  /-- The input has no file name to make an output name of. -/
  | invalidPath (path : Path)
  | unreadable (path : Path) (error : SystemError)
  | unwritable (path : Path) (error : SystemError)
  /-- Another request to the system was refused. -/
  | system (error : SystemError)
  /-- The source does not scan. -/
  | scan (source : Source) (error : ScanError)
  /-- The source can not be rendered. -/
  | render (source : Source) (error : RenderError)
  /-- The work on some inputs failed. -/
  | inputsFailed (count : Nat)
  deriving DecidableEq

/-- The kinds of failures. -/
inductive Category where
  | settings
  | file
  | validation
  | execution
  | scan
  | render
  | system
  deriving DecidableEq

namespace Failure

/-- The category of a failure. -/
def category : Failure → Category
  | settingsMissing _ | settingsMalformed | settingsFormat _ | settingsExtension _ => .settings
  | invalidPath _ | unreadable _ _ | unwritable _ _ => .file
  | unknownFormat _ | noInputs | repeatedInput | missingInput _ | inputNotFile _
  | outputNotDirectory _ | outputIsInput _ | outputExists _ => .validation
  | inputsFailed _ => .execution
  | scan _ _ => .scan
  | render _ _ => .render
  | system _ => .system

/-- The failure without its category. -/
def detail : Failure → Text
  | settingsMissing path => "Configuration file not found: ".toList ++ path
  | settingsMalformed =>
    "Failed to parse configuration: malformed document or a value of the wrong type".toList
  | settingsFormat format => "Invalid format in configuration: ".toList ++ format
  | settingsExtension extension =>
    "Invalid extension in configuration: ".toList ++ extension.quoted
  | unknownFormat format => "Unknown format: ".toList ++ format
  | noInputs => "No input files specified".toList
  | repeatedInput => "Standard input can only be read once".toList
  | missingInput path => "Input path does not exist: ".toList ++ path
  | inputNotFile path => "Input path is not a file: ".toList ++ path
  | outputNotDirectory path =>
    "Output must be a directory when converting several files: ".toList ++ path
  | outputIsInput path => "Output would overwrite its input: ".toList ++ path
  | outputExists path => "Output file already exists (use --force): ".toList ++ path
  | invalidPath path => "Invalid file path: ".toList ++ path
  | unreadable path e => "Cannot read ".toList ++ path ++ ": ".toList ++ e.message
  | unwritable path e => "Cannot write ".toList ++ path ++ ": ".toList ++ e.message
  | system e => e.message
  | scan _ e => e.message
  | render _ e => e.message
  | inputsFailed count => Text.ofNat count ++ " file(s) failed to process".toList

/-- What the user is told. -/
def message (f : Failure) : Text :=
  match f with
  | scan s _ | render s _ => s.name ++ ": ".toList ++ f.detail
  | _ =>
    match f.category with
    | .settings => "Configuration error: ".toList ++ f.detail
    | .file => "File operation failed: ".toList ++ f.detail
    | .validation => "Validation error: ".toList ++ f.detail
    | .execution => "Command execution failed: ".toList ++ f.detail
    | .system => "IO error: ".toList ++ f.detail
    | .scan | .render => f.detail

/-- The report of a failure about a place in a source. -/
def report? : Failure → Option Text
  | scan s e => some ((e.diagnostic s).render s)
  | render s e => (e.diagnostic? s).map (·.render s)
  | _ => none

end Failure

end Smalltalk
