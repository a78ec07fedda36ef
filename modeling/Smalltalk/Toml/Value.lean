import Smalltalk.Text

/-! # TOML values

A value is a scalar, an array or a table. A table remembers how it came to be, because that decides
what may still be added to it:

* an inline table is complete;
* a table named by a header may get keys below its header only, and no second header;
* a table made for a dotted key may get further dotted keys;
* a table made only to hold another one may still get a header of its own.

The functions below look up and change the entries of a table by a path of keys. -/

namespace Smalltalk.Toml

/-- How a table came to be. -/
inductive Origin where
  | inline
  | header
  | dotted
  | implicit
  deriving DecidableEq

/-- A value; of numbers and dates only the kind matters here. -/
inductive Value where
  | string (text : Text)
  | boolean (value : Bool)
  | integer
  | float
  | date
  | array (items : List Value)
  /-- Tables with one repeated header. -/
  | tables (items : List Value)
  | table (origin : Origin) (entries : List (Text × Value))

/-- The entries of a table, in order. -/
abbrev Entries := List (Text × Value)

namespace Entries

/-- The value of a key. -/
def get? (es : Entries) (key : Text) : Option Value := (es.find? (·.1 = key)).map (·.2)

/-- The entries with a new value for a key that is there already. -/
def replace (es : Entries) (key : Text) (value : Value) : Entries :=
  es.map fun e => if e.1 = key then (key, value) else e

/-- The entries with a new key, which must not be there already. -/
def insert? (es : Entries) (key : Text) (value : Value) : Option Entries :=
  if (es.get? key).isSome then none else some (es ++ [(key, value)])

/-- Changes the table that the last of several tables is. -/
def changeLast (f : Value → Option Value) : List Value → Option (List Value)
  | [] => none
  | [v] => (f v).map fun v => [v]
  | v :: vs => (changeLast f vs).map (v :: ·)

/-- Changes the entries of a table that is not inline, or of the last of several tables. -/
def changeTable (f : Origin → Entries → Option Entries) : Value → Option Value
  | .table .inline _ => none
  | .table origin es => (f origin es).map (.table origin)
  | .tables vs =>
    (changeLast (fun v => match v with
      | .table origin es => (f origin es).map (.table origin)
      | _ => none) vs).map .tables
  | _ => none

/-- Changes the entries of the table at the end of a path of headers; tables on the way are made
when they are missing. -/
def change (f : Entries → Option Entries) : List Text → Entries → Option Entries
  | [], es => f es
  | key :: path, es =>
    match es.get? key with
    | none => (change f path []).bind fun inner => es.insert? key (.table .implicit inner)
    | some v => (changeTable (fun _ inner => change f path inner) v).map (es.replace key)

/-- Adds the value of a dotted key. `here` tells whether the entries belong to a table made for
dotted keys; a table with a header of its own can not be reached by a dotted key. -/
def addDotted (value : Value) (here : Bool) : List Text → Entries → Option Entries
  | [], _ => none
  | [key], es => if here then es.insert? key value else none
  | key :: path, es =>
    match es.get? key with
    | none => (addDotted value true path []).bind fun inner => es.insert? key (.table .dotted inner)
    | some (.table .header _) => none
    | some v =>
      (changeTable (fun origin inner => addDotted value (origin = .dotted) path inner) v).map
        (es.replace key)

/-- Adds the value of a key, dotted or not. -/
def add (value : Value) (path : List Text) (es : Entries) : Option Entries :=
  addDotted value (path.length = 1) path es

/-- Opens the table of a header. -/
def openTable (key : Text) (es : Entries) : Option Entries :=
  match es.get? key with
  | none => es.insert? key (.table .header [])
  | some (.table .implicit inner) => some (es.replace key (.table .header inner))
  | some _ => none

/-- Opens one more table of a repeated header. -/
def openNextTable (key : Text) (es : Entries) : Option Entries :=
  match es.get? key with
  | none => es.insert? key (.tables [.table .header []])
  | some (.tables vs) => some (es.replace key (.tables (vs ++ [.table .header []])))
  | some _ => none

end Entries

end Smalltalk.Toml
