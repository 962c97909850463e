import Stencil.Settings.Value

/-! # Trees of TOML

    While a document is read, its tables are kept together with the way in which
    each one came about, for that decides what may still be added to it: a table
    with a header of its own is complete as soon as the next header comes, one
    that a longer header implied may still get its own header, and one that
    dotted keys made may only get further dotted keys (or headers below it). -/

namespace Stencil.Settings.Toml

/-- How a table came about. -/
inductive Origin where
  | header
  | implied
  | dotted
deriving DecidableEq, Repr

/-- A value, a table, or an array of tables, of which the last one is open. -/
inductive Node where
  | value (v : Value)
  | table (origin : Origin) (entries : List (String × Node))
  | tables (complete : List Value) (last : List (String × Node))

/-- The entries of a table. -/
abbrev Entries := List (String × Node)

namespace Entries

/-- The node of a key. -/
def get? (entries : Entries) (key : String) : Option Node := entries.lookup key

/-- Gives a key a node. -/
def set (entries : Entries) (key : String) (node : Node) : Entries :=
  putEntry key node entries

/-- Puts a value at a dotted key.  The key must be free; the tables on the way
    must be made by dotted keys, or be made now. -/
def place (value : Value) : List String → Entries → Option Entries
  | [], _ => none
  | [key], entries =>
      match get? entries key with
      | none => some (set entries key (.value value))
      | some _ => none
  | key :: next :: keys, entries =>
      match get? entries key with
      | none => do
          let inner ← place value (next :: keys) []
          return set entries key (.table .dotted inner)
      | some (.table origin inner) =>
          -- the table that gets the key must be the work of dotted keys
          if origin = .header || (keys.isEmpty && origin != .dotted) then none
          else do
            let inner ← place value (next :: keys) inner
            return set entries key (.table origin inner)
      | some (.tables complete last) =>
          if keys.isEmpty then none
          else do
            let last ← place value (next :: keys) last
            return set entries key (.tables complete last)
      | some (.value _) => none

/-- Changes the table at the end of a path of headers.  Missing tables are
    implied; in an array of tables the last one is meant. -/
def within (change : Entries → Option Entries) : List String → Entries → Option Entries
  | [], entries => change entries
  | key :: keys, entries =>
      match get? entries key with
      | none => do
          let inner ← within change keys []
          return set entries key (.table .implied inner)
      | some (.table origin inner) => do
          let inner ← within change keys inner
          return set entries key (.table origin inner)
      | some (.tables complete last) => do
          let last ← within change keys last
          return set entries key (.tables complete last)
      | some (.value _) => none

mutual

/-- The value of a node. -/
def nodeValue : Node → Value
  | .value v => v
  | .table _ entries => .table (entryValues entries)
  | .tables complete last => .list (complete ++ [.table (entryValues last)])

/-- The values of the entries of a table. -/
def entryValues : List (String × Node) → List (String × Value)
  | [] => []
  | (key, node) :: rest => (key, nodeValue node) :: entryValues rest

end

/-- Opens the table of a header. -/
def openTable (key : String) (entries : Entries) : Option Entries :=
  match get? entries key with
  | none => some (set entries key (.table .header []))
  | some (.table .implied inner) => some (set entries key (.table .header inner))
  | some _ => none

/-- Opens one more table of an array of tables. -/
def openArrayTable (key : String) (entries : Entries) : Option Entries :=
  match get? entries key with
  | none => some (set entries key (.tables [] []))
  | some (.tables complete last) =>
      some (set entries key (.tables (complete ++ [.table (entryValues last)]) []))
  | some _ => none

end Entries

end Stencil.Settings.Toml
