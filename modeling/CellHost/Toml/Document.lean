import CellHost.Toml.Statement

/-!
# Documents

The statements of a configuration file write one table. A header names the table that the following
keys go to, from the root; a doubled one adds an item to an array of tables. Tables on the way that
are not there are made.

No key is written twice and no table is opened twice. A table counts as opened once it has a header
or is written inline; one that was only made on the way to another can still be opened, and one made
by dotted keys can be filled by dotted keys only.

## Main definitions

* `parse` : the table that a file writes.
-/

namespace CellHost.Toml

/-- How a table came about. -/
inductive Origin where
  /-- Opened by a header, or the root. -/
  | opened
  /-- Made on the way of a header. -/
  | onTheWay
  /-- Made by a dotted key. -/
  | dotted
  deriving DecidableEq, Repr, Inhabited

/-- A part of a document. -/
inductive Node where
  | leaf (value : Value)
  | table (origin : Origin) (entries : List (String × Node))
  /-- An array of tables, last item first. -/
  | items (tables : List (List (String × Node)))
  deriving Inhabited

/-- The entries of a table. -/
abbrev Entries := List (String × Node)

/-- Follow a path from a table, making tables of the given origin where there are none, and change
the table it leads to. In an array of tables it leads to the last item. A dotted key does not enter
opened tables. -/
def alter (origin : Origin) (change : Origin → Entries → Option Entries) :
    Path → Origin → Entries → Option Entries
  | [], here, entries => change here entries
  | key :: path, _, entries =>
    match entries.lookup key with
    | some (.leaf _) => none
    | some (.items []) => none
    | some (.items (last :: others)) =>
      (alter origin change path .opened last).map fun last =>
        putEntry entries key (.items (last :: others))
    | some (.table there inner) =>
      if origin = .dotted ∧ there = .opened then none
      else
        (alter origin change path there inner).map fun inner =>
          putEntry entries key (.table there inner)
    | none =>
      (alter origin change path origin []).map fun inner =>
        putEntry entries key (.table origin inner)

/-- Write a value under a key of a table, which is the table the key's dots lead to. -/
def assignHere (viaDots : Bool) (key : String) (value : Value) (here : Origin)
    (entries : Entries) : Option Entries :=
  if viaDots != (here == .dotted) then none
  else if entries.any (·.1 == key) then none
  else some (entries ++ [(key, .leaf value)])

/-- Write a value under a dotted key of a table that has been opened. -/
def assign (path : Path) (value : Value) (entries : Entries) : Option Entries :=
  match path.getLast? with
  | none => none
  | some key => alter .dotted (assignHere (2 ≤ path.length) key value) path.dropLast .opened entries

/-- Open the table under a key: it must be new, or made on the way to another. -/
def openTable (key : String) (_ : Origin) (entries : Entries) : Option Entries :=
  match entries.lookup key with
  | none => some (entries ++ [(key, .table .opened [])])
  | some (.table .onTheWay inner) => some (putEntry entries key (.table .opened inner))
  | some _ => none

/-- Add an item to the array of tables under a key. -/
def openItem (key : String) (_ : Origin) (entries : Entries) : Option Entries :=
  match entries.lookup key with
  | none => some (entries ++ [(key, .items [[]])])
  | some (.items tables) => some (putEntry entries key (.items ([] :: tables)))
  | some _ => none

/-- Open what a header names. -/
def openPath (atKey : String → Origin → Entries → Option Entries) (path : Path)
    (root : Entries) : Option Entries :=
  match path.getLast? with
  | none => none
  | some key => alter .onTheWay (atKey key) path.dropLast .opened root

/-- Carry out a statement, after a header that led to `current`. -/
def perform (current : Path) (root : Entries) : Statement → Option (Path × Entries)
  | .assign path value =>
    (alter .onTheWay (fun _ entries => assign path value entries) current .opened root).map
      (current, ·)
  | .header path => (openPath openTable path root).map (path, ·)
  | .itemHeader path => (openPath openItem path root).map (path, ·)

/-- Carry out statements in order. -/
def performAll : List Statement → Path → Entries → Option Entries
  | [], _, root => some root
  | s :: rest, current, root => do
    let (current, root) ← perform current root s
    performAll rest current root

mutual

/-- The value of a part of a document. -/
def Node.toValue : Node → Value
  | .leaf value => value
  | .table _ entries => .table (entriesToValues entries)
  | .items tables => .array (tablesToValues [] tables)

/-- The values of the entries of a table. -/
def entriesToValues : List (String × Node) → List (String × Value)
  | [] => []
  | (key, node) :: rest => (key, node.toValue) :: entriesToValues rest

/-- The values of tables in reverse, before those of `done`. -/
def tablesToValues (done : List Value) : List (List (String × Node)) → List Value
  | [] => done
  | entries :: rest => tablesToValues (.table (entriesToValues entries) :: done) rest

end

/-- The table that a file writes; `none` if it is not well formed. -/
def parse (text : String) : Option Value := do
  let statements ← readStatements text
  let root ← performAll statements [] []
  return .table (entriesToValues root)

end CellHost.Toml
