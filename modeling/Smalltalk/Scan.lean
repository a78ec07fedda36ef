import Smalltalk.Lexer

/-! # Scanning a text

A scan is the list of all tokens from a byte offset on and the offset where it stopped, or the first
error. `Lexer.placedTokens` also tells where each token starts and stops. -/

namespace Smalltalk

/-- A token and the byte offsets where it starts and stops. -/
structure PlacedToken where
  token : Token
  start : Nat
  stop : Nat
  deriving DecidableEq

/-- The tokens of a text in order, and the byte offset where scanning stopped. -/
structure Scan where
  tokens : List Token
  stop : Nat
  deriving DecidableEq

namespace Lexer

/-- All tokens from here on with their places, and the offset where the lexer stops. -/
def placedTokens (l : Lexer) : Except ScanError (List PlacedToken × Nat) :=
  match h : l.nextToken with
  | (.error e, _) => .error e
  | (.ok none, l') => .ok ([], l'.position)
  | (.ok (some token), l') =>
    have := rest_length_lt h
    (placedTokens l').map fun (tokens, stop) =>
      (⟨token, l'.tokenStart, l'.position⟩ :: tokens, stop)
termination_by l.cursor.rest.length

end Lexer

/-- The text can be scanned from `start`: it is a character boundary or not inside the text. -/
def Text.CanStart (text : Text) (start : Nat) : Prop :=
  text.byteLength ≤ start ∨ text.IsBoundary start

instance (text : Text) (start : Nat) : Decidable (text.CanStart start) := by
  unfold Text.CanStart; infer_instance

/-- **The tokens of a text from a byte offset on.** -/
def scan (text : Text) (start : Nat) (keepBlanks : Bool) : Except ScanError Scan :=
  if text.CanStart start then
    ((Lexer.ofOffset text start).withBlanks keepBlanks).placedTokens.map fun (tokens, stop) =>
      ⟨tokens.map (·.token), stop⟩
  else .error ⟨.invalidStart, start⟩

end Smalltalk
