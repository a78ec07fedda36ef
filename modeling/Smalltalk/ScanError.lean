import Smalltalk.Text

/-! # What can be wrong with a text

A scan stops at the first fault. An error is the fault together with the byte offset it concerns;
the wording is in `ScanError.message` alone. -/

namespace Smalltalk

/-- Why a text does not scan. -/
inductive ScanFault where
  /-- `$` is the last character. -/
  | trailingDollar
  /-- `<` is the last character. -/
  | trailingLess
  /-- `>` is the last character. -/
  | trailingGreater
  /-- `:` is the last character. -/
  | trailingColon
  /-- A backslash is not followed by a second one. -/
  | trailingBackslash
  /-- `#` is followed by neither `(` nor a letter or digit. -/
  | invalidHash
  /-- `~` is followed by neither `~` nor `=`. -/
  | invalidTilde
  /-- A second `r` in one numeric literal. -/
  | multipleRadix
  /-- A second `e` in one numeric literal. -/
  | multipleExponent
  /-- The text before `r` is no number from 2 to 36. -/
  | invalidRadix (radix : Text)
  /-- A character that is no digit of the literal's radix. -/
  | invalidDigit (digit : Char) (radix : Nat)
  /-- A numeric literal whose mantissa or exponent has no digit. -/
  | malformedNumber (literal : Text)
  /-- The scan was to start inside a character. -/
  | invalidStart
  /-- A character that starts no token. -/
  | unknownCharacter (character : Char)
  deriving DecidableEq

/-- A fault at a byte offset. -/
structure ScanError where
  fault : ScanFault
  offset : Nat
  deriving DecidableEq

namespace ScanError

/-- The same fault seen from `base` bytes further to the front. -/
def shift (e : ScanError) (base : Nat) : ScanError := { e with offset := base + e.offset }

/-- What the user is told. -/
def message (e : ScanError) : Text :=
  match e.fault with
  | .trailingDollar => "Ending with a dollar sign".toList
  | .trailingLess => "Ending with a trailing <".toList
  | .trailingGreater => "Ending with a trailing >".toList
  | .trailingColon => "Ending with a trailing :".toList
  | .trailingBackslash => "Ending with a trailing \\, expected \\\\".toList
  | .invalidHash => "Expected #( or symbol after # at index ".toList ++ Text.ofNat e.offset
  | .invalidTilde => "Expected ~~ or ~= after ~ at index ".toList ++ Text.ofNat e.offset
  | .multipleRadix =>
    "Multiple radix specifiers in number at index ".toList ++ Text.ofNat e.offset
  | .multipleExponent =>
    "Multiple exponent specifiers in number at index ".toList ++ Text.ofNat e.offset
  | .invalidRadix radix =>
    "Invalid radix ".toList ++ radix ++ " at index ".toList ++ Text.ofNat e.offset ++
      ", expected 2 to 36".toList
  | .invalidDigit digit radix =>
    "Invalid digit for radix ".toList ++ Text.ofNat radix ++ ": ".toList ++ [digit]
  | .malformedNumber literal =>
    "Malformed number literal ".toList ++ literal ++ " at index ".toList ++ Text.ofNat e.offset
  | .invalidStart =>
    "Start offset ".toList ++ Text.ofNat e.offset ++ " is not on a character boundary".toList
  | .unknownCharacter character =>
    "Unknown character: ".toList ++ [character] ++ " at index ".toList ++ Text.ofNat e.offset

@[simp] theorem fault_shift (e : ScanError) (base : Nat) : (e.shift base).fault = e.fault := rfl

@[simp] theorem offset_shift (e : ScanError) (base : Nat) :
    (e.shift base).offset = base + e.offset := rfl

end ScanError

end Smalltalk
