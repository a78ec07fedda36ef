import Smalltalk.Failure
import Smalltalk.Toml.Document

/-! # Settings

Settings say what the commands do when their arguments leave it open. They are read from a TOML
document with the tables `tokens` and `convert`; what is missing has a default and what is unknown
is ignored. A table may also be given as the array of its values in order.

* `Settings.parse`: the settings of a document, validated.
* `Settings.tokensWith`, `Settings.convertWith`: the settings in effect, with arguments added. -/

namespace Smalltalk

/-! ### Formats -/

/-- How tokens are printed. -/
inductive OutputFormat where
  /-- One line for each token. -/
  | text
  /-- One JSON object for each input. -/
  | json
  deriving DecidableEq

namespace OutputFormat

/-- The name of a format. -/
def name : OutputFormat → Text
  | text => "text".toList
  | json => "json".toList

/-- The format with a name, in upper or lower case. The names are ASCII, so other letters, whatever
their case, belong to no name. -/
def ofName? (name : Text) : Option OutputFormat :=
  let lower := name.map Char.toLower
  if lower = "text".toList ∨ lower = "txt".toList then some text
  else if lower = "json".toList then some json
  else none

/-- The format with a name, or the failure that there is none. -/
def ofName (name : Text) : Except Failure OutputFormat :=
  match ofName? name with
  | some format => .ok format
  | none => .error (.unknownFormat name)

end OutputFormat

/-! ### The settings -/

/-- Settings for printing tokens. -/
structure TokenSettings where
  keepBlanks : Bool := false
  format : Text := OutputFormat.text.name
  deriving DecidableEq

/-- Settings for converting files. -/
structure ConvertSettings where
  extension : Text := "js".toList
  force : Bool := false
  deriving DecidableEq

/-- All settings. -/
structure Settings where
  verbose : Bool := false
  tokens : TokenSettings := {}
  convert : ConvertSettings := {}
  deriving DecidableEq

namespace Settings

/-! ### Reading -/

/-- The fields of a record given as a table, by name, or as an array, by place; a date is a record
that has none of them. -/
def fields (names : List Text) : Toml.Value → Option (List (Option Toml.Value))
  | .table _ entries => some (names.map fun name => Toml.Entries.get? entries name)
  | .array items | .tables items =>
    some ((List.range names.length).map fun i => items[i]?)
  | .date => some (names.map fun _ => none)
  | _ => none

/-- A truth value with a default. -/
def bool (default : Bool) : Option Toml.Value → Option Bool
  | none => some default
  | some (.boolean b) => some b
  | some _ => none

/-- A text with a default. -/
def text (default : Text) : Option Toml.Value → Option Text
  | none => some default
  | some (.string t) => some t
  | some _ => none

/-- The settings for printing tokens in a document. -/
def readTokens : Option Toml.Value → Option TokenSettings
  | none => some {}
  | some v => do
    match ← fields ["include_whitespace".toList, "format".toList] v with
    | [keepBlanks, format] =>
      let defaults : TokenSettings := {}
      return ⟨← bool defaults.keepBlanks keepBlanks, ← text defaults.format format⟩
    | _ => none

/-- The settings for converting files in a document. -/
def readConvert : Option Toml.Value → Option ConvertSettings
  | none => some {}
  | some v => do
    match ← fields ["extension".toList, "force".toList] v with
    | [extension, force] =>
      let defaults : ConvertSettings := {}
      return ⟨← text defaults.extension extension, ← bool defaults.force force⟩
    | _ => none

/-- The settings in the entries of a document, if every value has the right type. -/
def ofEntries? (entries : Toml.Entries) : Option Settings := do
  let defaults : Settings := {}
  let verbose ← bool defaults.verbose (entries.get? "verbose".toList)
  let tokens ← readTokens (entries.get? "tokens".toList)
  let convert ← readConvert (entries.get? "convert".toList)
  return ⟨verbose, tokens, convert⟩

/-- An extension that is part of a file name and has no dot. -/
def IsExtension (t : Text) : Prop := t ≠ [] ∧ '/' ∉ t ∧ '\\' ∉ t ∧ '.' ∉ t

instance (t : Text) : Decidable (IsExtension t) := by unfold IsExtension; infer_instance

/-- The settings, if the format exists and the extension is one; the format is checked first. -/
def validate (s : Settings) : Except Failure Settings :=
  if OutputFormat.ofName? s.tokens.format = none then .error (.settingsFormat s.tokens.format)
  else if IsExtension s.convert.extension then .ok s
  else .error (.settingsExtension s.convert.extension)

/-- **The settings of a document.** -/
def parse (document : Text) : Except Failure Settings :=
  match (Toml.parse document).bind ofEntries? with
  | none => .error .settingsMalformed
  | some s => s.validate

/-! ### Settings in effect -/

/-- The settings for printing tokens, given what the arguments say. -/
def tokensWith (s : Settings) (keepBlanks : Bool) (format : Option Text) : TokenSettings :=
  ⟨s.tokens.keepBlanks || keepBlanks, format.getD s.tokens.format⟩

/-- The settings for converting files, given what the arguments say. -/
def convertWith (s : Settings) (force : Bool) : ConvertSettings :=
  { s.convert with force := s.convert.force || force }

end Settings

end Smalltalk
