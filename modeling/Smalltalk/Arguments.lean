import Smalltalk.Command.Convert
import Smalltalk.Command.Tokens
import Smalltalk.Settings.Search

/-! # The command line

A command line is a list of words: options of the program, the name of a command, then options and
operands of the command. Options of the program may also stand behind the command's name. An option
is written `--name` or, for some, with one letter; letters may share a hyphen. A value follows as
the next word, behind `=`, or right behind the letter. A word with a hyphen is a value only when it
is the hyphen alone; behind `--` every word is an operand.

Words are read in order, and the first of them that is wrong or asks for help or the version
decides.

* `Arguments.read`: reads the words of one level.
* `Invocation.parse`: reads a command line. -/

namespace Smalltalk

/-! ### Options -/

/-- An option without a value. -/
inductive Switch where
  | help
  | version
  | verbose
  | noColor
  | whitespace
  | force
  deriving DecidableEq

namespace Switch

/-- The long name. -/
def name : Switch → Text
  | help => "help".toList
  | version => "version".toList
  | verbose => "verbose".toList
  | noColor => "no-color".toList
  | whitespace => "whitespace".toList
  | force => "force".toList

/-- The letter, if there is one. -/
def letter? : Switch → Option Char
  | help => some 'h'
  | version => some 'V'
  | verbose => some 'v'
  | noColor => none
  | whitespace => some 'w'
  | force => some 'f'

end Switch

/-- An option with a value. -/
inductive Slot where
  | config
  | start
  | format
  | output
  deriving DecidableEq

namespace Slot

/-- The long name. -/
def name : Slot → Text
  | config => "config".toList
  | start => "start".toList
  | format => "format".toList
  | output => "output".toList

/-- The letter, if there is one. -/
def letter? : Slot → Option Char
  | config => some 'c'
  | start => none
  | format => some 'F'
  | output => some 'o'

/-- Offsets have 64 bits, so they stay below `2 ^ 64`. -/
def offsetLimit : Nat := 18446744073709551616

/-- The byte offset a word stands for: digits behind an optional plus sign. -/
def offset? (t : Text) : Option Nat :=
  let digits := if t.head? = some '+' then t.drop 1 else t
  let value := digits.foldl (fun n c => 10 * n + (c.toNat - '0'.toNat)) 0
  if digits ≠ [] ∧ digits.all Char.isDigit ∧ value < offsetLimit then some value else none

/-- The texts that are values of an option: paths are not empty, and offsets are numbers. -/
def accepts : Slot → Text → Bool
  | config, t | output, t => t ≠ []
  | format, _ => true
  | start, t => (offset? t).isSome

end Slot

/-- A level of the command line: the program, or one of its commands. -/
inductive Level where
  | program
  | tokens
  | convert
  deriving DecidableEq

namespace Level

/-- The commands. -/
def commands : List Level := [tokens, convert]

/-- The name of a level, as the first word on it. -/
def name : Level → Text
  | program => "stct".toList
  | tokens => "tokens".toList
  | convert => "convert".toList

/-- The program's name, with that of the command. -/
def fullName : Level → Text
  | program => program.name
  | level => program.name ++ '-' :: level.name

/-- The switches that every level has. -/
def sharedSwitches : List Switch := [.verbose, .noColor, .help, .version]

/-- The switches of a level. -/
def switches : Level → List Switch
  | program => sharedSwitches
  | tokens => .whitespace :: sharedSwitches
  | convert => .force :: sharedSwitches

/-- The options with a value of a level. -/
def slots : Level → List Slot
  | program => [.config]
  | tokens => [.start, .format, .config]
  | convert => [.output, .config]

end Level

/-! ### Outcomes -/

/-- What is wrong with a command line. -/
inductive UsageError where
  | unknownOption (word : Text)
  /-- A switch with a value. -/
  | unexpectedValue (switch : Switch)
  | missingValue (slot : Slot)
  | invalidValue (slot : Slot) (value : Text)
  | repeatedSwitch (switch : Switch)
  | repeatedSlot (slot : Slot)
  /-- A switch in the environment that is neither on nor off. -/
  | invalidSwitch (switch : Switch) (value : Text)
  | emptyOperand
  | unknownCommand (word : Text)
  | missingCommand
  | missingOperand
  deriving DecidableEq

namespace UsageError

/-- What the user is told. -/
def message : UsageError → Text
  | unknownOption word => "unexpected argument: ".toList ++ word
  | unexpectedValue switch => "unexpected value for --".toList ++ switch.name
  | missingValue slot => "missing value for --".toList ++ slot.name
  | invalidValue slot value =>
    "invalid value for --".toList ++ slot.name ++ ": ".toList ++ value.quoted
  | repeatedSwitch switch => "repeated argument: --".toList ++ switch.name
  | repeatedSlot slot => "repeated argument: --".toList ++ slot.name
  | invalidSwitch switch value =>
    "invalid value for --".toList ++ switch.name ++ ": ".toList ++ value.quoted
  | emptyOperand => "an input has no name".toList
  | unknownCommand word => "unknown command: ".toList ++ word
  | missingCommand => "a command is required".toList
  | missingOperand => "an input is required".toList

end UsageError

/-- Why a command line is not carried out. -/
inductive Halt where
  | usage (error : UsageError)
  | help (level : Level)
  | version (level : Level)
  deriving DecidableEq

/-! ### Reading one level -/

/-- What one level of the command line says. -/
structure Arguments where
  switches : List Switch := []
  slots : List (Slot × Text) := []
  operands : List Text := []
  deriving DecidableEq

/-- A word of the command line by its form. -/
inductive Word where
  /-- Two hyphens: every word behind it is an operand. -/
  | delimiter
  /-- What follows two hyphens. -/
  | long (text : Text)
  /-- What follows one hyphen. -/
  | short (letters : Text)
  | plain (text : Text)
  deriving DecidableEq

/-- The form of a word. -/
def Word.ofText : Text → Word
  | ['-'] => plain ['-']
  | ['-', '-'] => delimiter
  | '-' :: '-' :: t => long t
  | '-' :: t => short t
  | t => plain t

namespace Arguments

/-- The value of an option. -/
def slot? (a : Arguments) (s : Slot) : Option Text := (a.slots.find? (·.1 = s)).map (·.2)

/-- A switch turned on. -/
def addSwitch (level : Level) (a : Arguments) (s : Switch) : Except Halt Arguments :=
  if s = .help then .error (.help level)
  else if s = .version then .error (.version level)
  else if s ∈ a.switches then .error (.usage (.repeatedSwitch s))
  else .ok { a with switches := s :: a.switches }

/-- An option with its value. -/
def addSlot (a : Arguments) (s : Slot) (value : Text) : Except Halt Arguments :=
  if !s.accepts value then .error (.usage (.invalidValue s value))
  else if (a.slot? s).isSome then .error (.usage (.repeatedSlot s))
  else .ok { a with slots := (s, value) :: a.slots }

/-- One more operand. -/
def addOperand (a : Arguments) (t : Text) : Except Halt Arguments :=
  if t = [] then .error (.usage .emptyOperand) else .ok { a with operands := a.operands ++ [t] }

/-- An option by its long name, and whether its value is to follow. -/
def addLong (level : Level) (a : Arguments) (t : Text) : Except Halt (Arguments × Option Slot) :=
  let (name, value) := t.cut '='
  match level.switches.find? (·.name = name), level.slots.find? (·.name = name), value with
  | some s, _, none => (a.addSwitch level s).map (·, none)
  | some s, _, some _ => .error (.usage (.unexpectedValue s))
  | none, some s, none => .ok (a, some s)
  | none, some s, some value => (a.addSlot s value).map (·, none)
  | none, none, _ => .error (.usage (.unknownOption ('-' :: '-' :: t)))

/-- Options by their letters, and whether a value is to follow. What follows the letter of an option
with a value is that value, without an equals sign in front. -/
def addLetters (level : Level) (a : Arguments) : Text → Except Halt (Arguments × Option Slot)
  | [] => .ok (a, none)
  | c :: cs =>
    match level.switches.find? (·.letter? = some c), level.slots.find? (·.letter? = some c) with
    | some s, _ => do addLetters level (← a.addSwitch level s) cs
    | none, some s =>
      if cs = [] then .ok (a, some s)
      else (a.addSlot s (if cs.head? = some '=' then cs.drop 1 else cs)).map (·, none)
    | none, none => .error (.usage (.unknownOption ['-', c]))

/-- **Reads the words of one level** and gives back those that are left: at the program's level the
name of the command with what follows it. `pending` is the option whose value comes next. -/
def read (level : Level) (a : Arguments) (pending : Option Slot) :
    List Text → Except Halt (Arguments × List Text)
  | [] =>
    match pending with
    | none => .ok (a, [])
    | some s => .error (.usage (.missingValue s))
  | word :: words =>
    match Word.ofText word, pending with
    | .plain t, some s => do read level (← a.addSlot s t) none words
    | _, some s => .error (.usage (.missingValue s))
    | .plain t, none =>
      if level = .program then .ok (a, word :: words)
      else do read level (← a.addOperand t) none words
    | .long t, none => do
      let (a, pending) ← a.addLong level t
      read level a pending words
    | .short t, none => do
      let (a, pending) ← a.addLetters level t
      read level a pending words
    | .delimiter, none =>
      if level = .program then .error (.usage .missingCommand)
      else do return (← words.foldlM addOperand a, [])

/-! ### The environment -/

/-- The value of a switch in the environment is `true` or `false`, if the switch is not given. -/
def checkSwitch (a : Arguments) (s : Switch) : Option Text → Except Halt Unit
  | none => .ok ()
  | some value =>
    if s ∈ a.switches ∨ value = "true".toList ∨ value = "false".toList then .ok ()
    else .error (.usage (.invalidSwitch s value))

/-- The value of an option in the environment is one of its values, if the option is not given. -/
def checkSlot (a : Arguments) (s : Slot) : Option Text → Except Halt Unit
  | none => .ok ()
  | some value =>
    if (a.slot? s).isSome ∨ s.accepts value then .ok ()
    else .error (.usage (.invalidValue s value))

/-- What a level does not say may be said by the environment, and must then make sense. -/
def checkEnvironment (a : Arguments) (e : Environment) : Except Halt Unit := do
  a.checkSwitch .verbose e.verbose
  a.checkSlot .config e.settings
  a.checkSwitch .noColor e.noColor

end Arguments

/-! ### Command lines -/

/-- A command with its arguments. -/
inductive Command where
  | tokens (arguments : TokensArguments)
  | convert (arguments : ConvertArguments)
  deriving DecidableEq

/-- The command of a level with what is said about it. -/
def Command.ofArguments (level : Level) (a : Arguments) : Command :=
  match level with
  | .convert => convert ⟨a.operands, a.slot? .output, .force ∈ a.switches⟩
  | _ =>
    tokens ⟨a.operands, .whitespace ∈ a.switches,
      ((a.slot? .start).bind Slot.offset?).getD 0, a.slot? .format⟩

/-- What the user asks for. -/
structure Invocation where
  settings : Option Path
  command : Command
  deriving DecidableEq

namespace Invocation

/-- Help for the command that is named, if any. -/
def help : List Text → Halt
  | [] => .help .program
  | [name] =>
    match Level.commands.find? (·.name = name) with
    | some level => .help level
    | none => .usage (.unknownCommand name)
  | _ :: name :: _ => .usage (.unknownCommand name)

/-- **What a command line asks for.** The settings file is the one named behind the command, else in
front of it, else in the environment. -/
def parse (e : Environment) (words : List Text) : Except Halt Invocation := do
  match ← Arguments.read .program {} none words with
  | (_, []) => .error (.usage .missingCommand)
  | (front, name :: words) =>
    if name = "help".toList then .error (help words)
    match Level.commands.find? (·.name = name) with
    | none => .error (.usage (.unknownCommand name))
    | some level =>
      let (back, _) ← Arguments.read level {} none words
      back.checkEnvironment e
      if back.operands = [] then .error (.usage .missingOperand)
      front.checkEnvironment e
      let settings := (back.slot? .config).or ((front.slot? .config).or e.settings)
      return ⟨settings, Command.ofArguments level back⟩

end Invocation

end Smalltalk
