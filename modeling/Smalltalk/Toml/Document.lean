import Smalltalk.Toml.Scalar

/-! # TOML documents

A document is a sequence of lines: blank lines and comments, `key = value`, headers `[key]` and
repeated headers `[[key]]`. Keys may be dotted and quoted. A key that is given twice, a table that
may not be extended, or nesting beyond `depthLimit` makes the document malformed. -/

namespace Smalltalk.Toml

/-- The number of parts a key may have, and of arrays and inline tables that may lie inside each
other. -/
def depthLimit : Nat := 79

/-! ### Keys -/

/-- A character of a bare key. -/
def isBareKey (c : Char) : Bool := c.isAlphanum || c = '_' || c = '-'

/-- A key without dots. -/
def simpleKey (t : Text) : Option (Text × Text) :=
  match t with
  | '\x22' :: _ | '\x27' :: _ => shortString t
  | t =>
    if t.takeWhile isBareKey = [] then none
    else some (t.takeWhile isBareKey, t.dropWhile isBareKey)

/-- A dotted key of at most so many parts, with the blanks around it. -/
def dottedKey : Nat → Text → Option (List Text × Text)
  | 0, _ => none
  | n + 1, t => do
    let (key, t) ← simpleKey (t.dropWhile isBlank)
    match t.dropWhile isBlank with
    | '.' :: t =>
      let (path, t) ← dottedKey n t
      return (key :: path, t)
    | t => return ([key], t)

/-- The key at the front of a text. -/
def key (t : Text) : Option (List Text × Text) := dottedKey depthLimit t

/-! ### Values -/

/-- Skips blanks, line ends and comments; `inComment` says whether a comment is open. -/
def skipLines (inComment : Bool) : Text → Text
  | [] => []
  | '\r' :: '\n' :: t => skipLines false t
  | c :: t =>
    if c = '\n' then skipLines false t
    else if inComment then (if isPlain c then skipLines true t else c :: t)
    else if isBlank c then skipLines false t
    else if c = '#' then skipLines true t
    else c :: t

mutual

/-- A value with at most `depth` arrays and inline tables inside each other; the first bound is on
the steps to its end. -/
def value : Nat → Nat → Text → Option (Value × Text)
  | 0, _, _ => none
  | n + 1, depth, t =>
    match t, depth with
    | '[' :: _, 0 | '\x7b' :: _, 0 => none
    | '[' :: t, depth + 1 => (arrayItems n depth t).map fun (items, t) => (.array items, t)
    | '\x7b' :: t, depth + 1 =>
      match t.dropWhile isBlank with
      | '\x7d' :: t => some (.table .inline [], t)
      | t => (inlineEntries n depth t []).map fun (entries, t) => (.table .inline entries, t)
    | '\x22' :: _, _ | '\x27' :: _, _ => (anyString t).map fun (text, t) => (.string text, t)
    | t, _ => (ofWord? (word t).1).map fun v => (v, (word t).2)

/-- The items of an array up to its closing bracket. -/
def arrayItems : Nat → Nat → Text → Option (List Value × Text)
  | 0, _, _ => none
  | n + 1, depth, t =>
    match skipLines false t with
    | ']' :: t => some ([], t)
    | t => do
      let (v, t) ← value n depth t
      match skipLines false t with
      | ']' :: t => return ([v], t)
      | ',' :: t =>
        let (vs, t) ← arrayItems n depth t
        return (v :: vs, t)
      | _ => none

/-- The entries of an inline table up to its closing brace, added to those before. -/
def inlineEntries : Nat → Nat → Text → Entries → Option (Entries × Text)
  | 0, _, _, _ => none
  | n + 1, depth, t, entries => do
    let (path, t) ← key t
    match t with
    | '=' :: t =>
      let (v, t) ← value n depth (t.dropWhile isBlank)
      let entries ← entries.add v path
      match t.dropWhile isBlank with
      | '\x7d' :: t => return (entries, t)
      | ',' :: t => inlineEntries n depth t entries
      | _ => none
    | _ => none

end

/-! ### Lines -/

/-- One line of a document. -/
inductive Line where
  | blank
  | assignment (path : List Text) (value : Value)
  | header (path : List Text)
  | repeatedHeader (path : List Text)

/-- What follows the end of a line, after blanks and a comment. -/
def lineEnd (t : Text) : Option Text :=
  let t := t.dropWhile isBlank
  let t := if t.head? = some '#' then t.dropWhile isPlain else t
  if t = [] then some [] else dropNewline? t

/-- The line at the front without its end, and what follows. -/
def line (t : Text) : Option (Line × Text) :=
  match t.dropWhile isBlank with
  | '[' :: '[' :: t => do
    match ← key t with
    | (path, ']' :: ']' :: t) => return (.repeatedHeader path, t)
    | _ => none
  | '[' :: t => do
    match ← key t with
    | (path, ']' :: t) => return (.header path, t)
    | _ => none
  | [] => some (.blank, [])
  | c :: t =>
    if c = '#' ∨ (dropNewline? (c :: t)).isSome then some (.blank, c :: t)
    else do
      match ← key (c :: t) with
      | (path, '=' :: t) =>
        let (v, t) ← value (t.length + 1) depthLimit (t.dropWhile isBlank)
        return (.assignment path v, t)
      | _ => none

/-- A document being read: its entries, and the path of the last header. -/
structure Document where
  entries : Entries := []
  header : List Text := []

namespace Document

/-- The document with one line more. -/
def addLine (d : Document) : Line → Option Document
  | .blank => some d
  | .assignment path v =>
    (d.entries.change (Entries.add v path) d.header).map fun entries => { d with entries }
  | .header path => do
    let last ← path.getLast?
    let entries ← d.entries.change (Entries.openTable last) path.dropLast
    return ⟨entries, path⟩
  | .repeatedHeader path => do
    let last ← path.getLast?
    let entries ← d.entries.change (Entries.openNextTable last) path.dropLast
    return ⟨entries, path⟩

/-- Reads lines up to the end; the bound is on their number. -/
def readLines (d : Document) : Nat → Text → Option Document
  | 0, _ => none
  | n + 1, t =>
    if t = [] then some d
    else do
      let (l, t) ← line t
      let t ← lineEnd t
      (← d.addLine l).readLines n t

end Document

/-- **The entries of a document,** nothing if it is malformed. A byte order mark may come first. -/
def parse (t : Text) : Option Entries :=
  let t := if t.head? = some '\ufeff' then t.drop 1 else t
  (({} : Document).readLines (t.length + 1) t).map (·.entries)

end Smalltalk.Toml
