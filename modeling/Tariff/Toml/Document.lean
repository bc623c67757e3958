/-
# TOML documents

A document is a sequence of lines: headers, which say what table the lines after them are
about, and keys with their values. The whole document is one table.
-/
import Tariff.Toml.Draft
import Tariff.Toml.Lexeme
import Tariff.Toml.Scalar

namespace Tariff

namespace Toml

/-! ## Values -/

/-- How deep lists and tables may stand in each other. -/
def maximalDepth : Nat := 80

/-- Splits the last key off a path. -/
def splitPath (path : List String) : Option (List String × String) :=
  path.getLast?.map fun key => (path.dropLast, key)

mutual

/-- Reads a value in which lists and tables stand up to `depth` deep; `room` bounds the number
of steps. -/
def value (room depth : Nat) (cs : List Char) : Option (SettingValue × List Char) :=
  match room, depth, cs with
  | 0, _, _ => none
  | _, 0, '[' :: _ => none
  | _, 0, '{' :: _ => none
  | room + 1, depth + 1, '[' :: rest => do items room depth [] (← skipTrivia false rest)
  | room + 1, depth + 1, '{' :: rest =>
    match skipSpaces rest with
    | '}' :: rest => some (.table [], rest)
    | rest => members room depth [] rest
  | _, _, '"' :: _ => (string cs).map fun (text, rest) => (.text text, rest)
  | _, _, '\'' :: _ => (string cs).map fun (text, rest) => (.text text, rest)
  | _, _, _ => scalar cs

/-- Reads the items of a list that are still to come, up to its closing bracket. -/
def items (room depth : Nat) (read : List SettingValue) (cs : List Char) :
    Option (SettingValue × List Char) :=
  match room, cs with
  | 0, _ => none
  | _, ']' :: rest => some (.list read.reverse, rest)
  | room + 1, cs => do
    let (item, rest) ← value room depth cs
    match ← skipTrivia false rest with
    | ',' :: rest => items room depth (item :: read) (← skipTrivia false rest)
    | ']' :: rest => return (.list (item :: read).reverse, rest)
    | _ => none

/-- Reads the members of a table in braces that are still to come, of which there is at least
one. -/
def members (room depth : Nat) (draft : Draft) (cs : List Char) :
    Option (SettingValue × List Char) :=
  match room with
  | 0 => none
  | room + 1 => do
    let (path, rest) ← keyPath cs.length cs
    let '=' :: rest := rest | none
    let (value, rest) ← value room depth (skipSpaces rest)
    let (path, key) ← splitPath path
    let draft ← draft.assign path key value
    match skipSpaces rest with
    | ',' :: rest => members room depth draft rest
    | '}' :: rest => return (.table (finishEntries draft), rest)
    | _ => none

end

/-! ## Lines -/

/-- What a line says. -/
inductive Statement where
  | assign (path : List String) (value : SettingValue)
  | table (path : List String)
  | element (path : List String)

/-- Reads a line that is neither blank nor a comment, up to its end. -/
def statement (cs : List Char) : Option (Statement × List Char) :=
  match cs with
  | '[' :: '[' :: rest => do
    let (path, rest) ← keyPath rest.length rest
    let ']' :: ']' :: rest := rest | none
    return (.element path, rest)
  | '[' :: rest => do
    let (path, rest) ← keyPath rest.length rest
    let ']' :: rest := rest | none
    return (.table path, rest)
  | _ => do
    let (path, rest) ← keyPath cs.length cs
    let '=' :: rest := rest | none
    let (value, rest) ← value (2 * cs.length) maximalDepth (skipSpaces rest)
    return (.assign path value, rest)

/-- Reads the statements of a text, of which there are at most `room`. -/
def statements : (room : Nat) → List Char → Option (List Statement)
  | 0, cs => if cs.isEmpty then some [] else none
  | room + 1, cs => do
    match ← skipTrivia false cs with
    | [] => return []
    | rest =>
      let (first, rest) ← statement rest
      let others ← statements room (← endLine? rest)
      return first :: others

/-! ## Documents -/

/-- The tables that statements build up after `draft`, where `header` is the path of the last
header. -/
def build (draft : Draft) (header : List String) : List Statement → Option Draft
  | [] => some draft
  | .assign path value :: statements => do
    let (path, key) ← splitPath path
    let draft ← draft.alterAt false (fun entries => Draft.assign entries path key value) header
    build draft header statements
  | .table path :: statements => do
    let (parents, key) ← splitPath path
    build (← draft.openTable parents key) path statements
  | .element path :: statements => do
    let (parents, key) ← splitPath path
    build (← draft.openElement parents key) path statements

/-- Reads a document: the entries of its table. A byte order mark at the start is left out. -/
def document? (text : String) : Option (List (String × SettingValue)) := do
  let cs := match text.toList with
    | '\ufeff' :: cs => cs
    | cs => cs
  let draft ← build [] [] (← statements (cs.length + 1) cs)
  return finishEntries draft

end Toml

end Tariff
