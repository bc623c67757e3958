/-
# Tables under construction

The statements of a TOML text build up its tables one after the other. How a table came about
decides what may still be added to it: a header may be repeated for no table, and keys with
points lead only through tables that such keys or longer headers brought about.
-/
import Tariff.Settings.Value

namespace Tariff

namespace Toml

/-- How a table came about. -/
inductive Origin where
  /-- A longer header leads through it. -/
  | implied
  /-- It has a header of its own. -/
  | header
  /-- A key with points leads through it. -/
  | dotted
  deriving DecidableEq

/-- What a key has been given: a complete value, a table that may grow, or a list of tables, of
which the last one may grow. -/
inductive Item where
  | value (value : SettingValue)
  | table (origin : Origin) (entries : List (String × Item))
  | tables (earlier : List (List (String × Item))) (current : List (String × Item))

/-- The entries of a table under construction. -/
abbrev Draft := List (String × Item)

namespace Draft

/-- Gives a key that is there another item. -/
def replace (draft : Draft) (key : String) (item : Item) : Draft :=
  draft.map fun entry => if entry.1 = key then (key, item) else entry

/-- Changes the table at the end of a path. A path of keys with points leads neither through
tables with headers nor through lists of tables. -/
def alterAt (draft : Draft) (dotted : Bool) (change : Draft → Option Draft) :
    List String → Option Draft
  | [] => change draft
  | key :: path =>
    match draft.lookup key with
    | none => do
      let entries ← alterAt [] dotted change path
      return draft ++ [(key, .table (if dotted then .dotted else .implied) entries)]
    | some (.table origin entries) => do
      if dotted && origin == .header then none
      let entries ← alterAt entries dotted change path
      return draft.replace key (.table origin entries)
    | some (.tables earlier current) => do
      if dotted then none
      let current ← alterAt current dotted change path
      return draft.replace key (.tables earlier current)
    | some (.value _) => none

/-- Gives a key a value; the key must be new. -/
def assign (draft : Draft) (path : List String) (key : String) (value : SettingValue) :
    Option Draft :=
  draft.alterAt true (fun entries =>
    if (entries.lookup key).isSome then none else some (entries ++ [(key, .value value)])) path

/-- Opens the table of a header. -/
def openTable (draft : Draft) (path : List String) (key : String) : Option Draft :=
  draft.alterAt false (fun entries =>
    match entries.lookup key with
    | none => some (entries ++ [(key, .table .header [])])
    | some (.table .implied inner) => some (Draft.replace entries key (.table .header inner))
    | some _ => none) path

/-- Opens a further table of a list. -/
def openElement (draft : Draft) (path : List String) (key : String) : Option Draft :=
  draft.alterAt false (fun entries =>
    match entries.lookup key with
    | none => some (entries ++ [(key, .tables [] [])])
    | some (.tables earlier current) =>
      some (Draft.replace entries key (.tables (earlier ++ [current]) []))
    | some _ => none) path

end Draft

/-! ## Finished tables -/

mutual

/-- The value of an item. -/
def Item.finish : Item → SettingValue
  | .value value => value
  | .table _ entries => .table (finishEntries entries)
  | .tables earlier current => .list (finishTables earlier ++ [.table (finishEntries current)])

/-- The entries of a table. -/
def finishEntries : List (String × Item) → List (String × SettingValue)
  | [] => []
  | (key, item) :: entries => (key, item.finish) :: finishEntries entries

/-- The tables of a list. -/
def finishTables : List (List (String × Item)) → List SettingValue
  | [] => []
  | entries :: tables => .table (finishEntries entries) :: finishTables tables

end

end Toml

end Tariff
