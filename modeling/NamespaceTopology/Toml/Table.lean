import NamespaceTopology.Config.Tree

set_option autoImplicit false

/-!
Tables while they are being written. A table remembers what brought it about, since only some tables
may still be added to: a header may state a table that so far was only implied, and a dotted key may
extend tables that no header has stated.
-/
namespace NamespaceTopology.Toml

open Config (Tree put)

/-- What brought a table about. -/
inductive Origin where
  | stated
  /-- The header of a table inside it. -/
  | implied
  /-- A dotted key that passes through it. -/
  | dotted
deriving DecidableEq

inductive Item where
  | value (v : Tree)
  | table (origin : Origin) (entries : List (String × Item))
  /-- An array of tables, one for each of its headers. -/
  | tables (elements : List (List (String × Item)))

abbrev Entries := List (String × Item)

mutual

def Item.toTree : Item → Tree
  | .value v => v
  | .table _ entries => .table (toEntries entries)
  | .tables elements => .array (toItems elements)

def toEntries : List (String × Item) → List (String × Tree)
  | [] => []
  | (name, item) :: rest => (name, item.toTree) :: toEntries rest

def toItems : List (List (String × Item)) → List Tree
  | [] => []
  | entries :: rest => .table (toEntries entries) :: toItems rest

end

/-- Works on the table at the end of a path, bringing about the tables that are missing. An array of
tables stands for its last one. The work is told whether dotted keys brought the table about. -/
def visit {α : Type} (origin : Origin) (work : Bool → Entries → Option (Entries × α)) :
    Bool → List String → Entries → Option (Entries × α)
  | here, [], entries => work here entries
  | _, name :: path, entries =>
    match entries.lookup name with
    | none => do
      let (sub, a) ← visit origin work (origin = .dotted) path []
      some (put name (.table origin sub) entries, a)
    | some (.value _) => none
    | some (.table o sub) =>
      if origin = .dotted ∧ o = .stated then none
      else do
        let (sub, a) ← visit origin work (o = .dotted) path sub
        some (put name (.table o sub) entries, a)
    | some (.tables elements) => do
      let (sub, a) ← visit origin work false path (← elements.getLast?)
      some (put name (.tables (elements.dropLast ++ [sub])) entries, a)

/-- Adds a value under a dotted key. The key must be new, and its last table must be one that such
keys brought about, or the one that is being written. -/
def addValue (path : List String) (name : String) (v : Tree) (entries : Entries) : Option Entries :=
  (visit .dotted (fun dotted es =>
    if dotted = path.isEmpty ∨ (es.lookup name).isSome then none
    else some (put name (.value v) es, ())) false path entries).map Prod.fst

/-- A document up to the current line: the finished tables, and the one that is being written. -/
structure Draft where
  root : Entries
  /-- Where the current table stands. The first one stands nowhere: it is the document. -/
  place : Option (List String × String)
  /-- Whether it is an element of an array of tables. -/
  element : Bool
  current : Entries

def Draft.start : Draft := ⟨[], none, false, []⟩

/-- Puts the current table into its place. -/
def Draft.close (d : Draft) : Option Entries :=
  match d.place with
  | none => some d.current
  | some (path, name) =>
    (visit .implied (fun _ es =>
      if d.element then
        match es.lookup name with
        | some (.tables elements) => some (put name (.tables (elements ++ [d.current])) es, ())
        | none => some (put name (.tables [d.current]) es, ())
        | _ => none
      else some (put name (.table .stated d.current) es, ())) false path d.root).map Prod.fst

/-- Begins the table of a header. So far it may only have been implied. -/
def Draft.header (path : List String) (name : String) (d : Draft) : Option Draft := do
  let (root, current) ← visit .implied (fun _ es =>
    match es.lookup name with
    | none => some (es, [])
    | some (.table .implied sub) => some (es.filter (·.1 ≠ name), sub)
    | _ => none) false path (← d.close)
  some ⟨root, some (path, name), false, current⟩

/-- Begins another table of an array of tables. -/
def Draft.elementHeader (path : List String) (name : String) (d : Draft) : Option Draft := do
  let (root, _) ← visit .implied (fun _ es =>
    match es.lookup name with
    | none => some (put name (.tables []) es, ())
    | some (.tables _) => some (es, ())
    | _ => none) false path (← d.close)
  some ⟨root, some (path, name), true, []⟩

end NamespaceTopology.Toml
