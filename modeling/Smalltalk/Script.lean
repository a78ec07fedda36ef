import Smalltalk.Scan

/-! # Rendering as JavaScript

Each token is rendered on its own and the results are joined, so blanks and layout survive. Numbers
and blanks stay as they are, strings become template literals, symbols `Symbol.for("…")`, comments
line comments, and `+ - * / = ==` the operators `+ - * / == ===`. No other token has a rendering.

* `renderTokens`: the script of a list of tokens, or the first token that has none.
* `render`: the script of a text. The whole text is scanned first, so a scan error wins over a token
  without a rendering before it; what has no rendering is reported with its byte offset. -/

namespace Smalltalk

/-! ### Errors -/

/-- A token that has no rendering. -/
inductive RenderFault where
  /-- A special token that is no operator of the script. -/
  | unknownOperator (operator : Text)
  /-- A token of a kind that is never rendered. -/
  | unknownToken (kind : TokenKind) (value : Text)
  deriving DecidableEq

/-- Why a text can not be rendered. -/
inductive RenderError where
  /-- The text does not scan. -/
  | scan (error : ScanError)
  /-- A token has no rendering; the offset is known when it comes from a text. -/
  | unsupported (fault : RenderFault) (offset : Option Nat)
  deriving DecidableEq

namespace RenderFault

/-- What the user is told. -/
def message : RenderFault → Text
  | unknownOperator operator => "Unknown operator: ".toList ++ operator
  | unknownToken kind value => "Unknown token: ".toList ++ kind.name ++ [' '] ++ value.quoted

end RenderFault

namespace RenderError

/-- What the user is told. -/
def message : RenderError → Text
  | scan e => e.message
  | unsupported fault _ => fault.message

/-- The byte offset of the error, if it is known. -/
def offset? : RenderError → Option Nat
  | scan e => some e.offset
  | unsupported _ offset => offset

end RenderError

/-! ### Tokens -/

namespace Script

/-- The inside of a template literal: backslashes, backquotes and a dollar sign before a brace are
escaped, so that the literal has no escapes and no substitutions of its own. -/
def templateBody : Text → Text
  | [] => []
  | c :: t =>
    if c = '\\' ∨ c = '\x60' ∨ (c = '$' ∧ t.head? = some '\x7b') then '\\' :: c :: templateBody t
    else c :: templateBody t

/-- A text as a template literal. -/
def templateLiteral (t : Text) : Text := '\x60' :: templateBody t ++ ['\x60']

/-- A text as line comments, one for each of its lines. -/
def lineComments (t : Text) : Text :=
  ['\n'].intercalate ((t.splitAll '\n').map ("// ".toList ++ ·))

/-- A symbol, looked up by its name. -/
def symbol (name : Text) : Text := "Symbol.for(".toList ++ name.jsonString ++ [')']

/-- The operator that stands for a special token. -/
def operator? (spelling : Text) : Option Text :=
  match spelling with
  | ['+'] => some ['+']
  | ['-'] => some ['-']
  | ['*'] => some ['*']
  | ['/'] => some ['/']
  | ['='] => some ['=', '=']
  | ['=', '='] => some ['=', '=', '=']
  | _ => none

/-- The script of one token. -/
def ofToken (t : Token) : Except RenderFault Text :=
  match t.kind with
  | .number | .whitespace => .ok t.value
  | .string => .ok (templateLiteral t.value)
  | .symbol => .ok (symbol t.value)
  | .comment => .ok (lineComments t.value)
  | .special =>
    match operator? t.value with
    | some operator => .ok operator
    | none => .error (.unknownOperator t.value)
  | .char | .identifier | .parameter | .blockArgument => .error (.unknownToken t.kind t.value)

end Script

/-! ### Lists of tokens and texts -/

/-- **The script of a list of tokens.** -/
def renderTokens : List Token → Except RenderError Text
  | [] => .ok []
  | t :: ts =>
    match Script.ofToken t with
    | .error fault => .error (.unsupported fault none)
    | .ok script => (renderTokens ts).map (script ++ ·)

/-- The script of tokens whose places are known. -/
def renderPlaced : List PlacedToken → Except RenderError Text
  | [] => .ok []
  | t :: ts =>
    match Script.ofToken t.token with
    | .error fault => .error (.unsupported fault (some t.start))
    | .ok script => (renderPlaced ts).map (script ++ ·)

/-- **The script of a text.** -/
def render (text : Text) : Except RenderError Text :=
  match ((Lexer.ofOffset text 0).withBlanks true).placedTokens with
  | .error e => .error (.scan e)
  | .ok (tokens, _) => renderPlaced tokens

end Smalltalk
