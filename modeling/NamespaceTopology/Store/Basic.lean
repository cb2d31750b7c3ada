import NamespaceTopology.Store.Value

set_option autoImplicit false

/-!
A store of versioned values in this process. Each key has a cell with its latest content; a watch
follows one cell and is signalled when the cell is written. Signals coalesce: however often a cell is
written, a watch that has not looked meanwhile meets one signal and then reads the latest content.
Closing a key ends its cell for good. A later write starts a new cell, which older watches never see.
-/
namespace NamespaceTopology

/-- What somebody meets who waits on a watch. -/
inductive Signal where
  | changed
  | ended
  | waiting
deriving DecidableEq, Repr

structure Cell where
  content : Option Value
  ended : Bool
deriving DecidableEq

structure Watch where
  cell : Nat
  /-- Whether the cell was written since the last signal. -/
  unseen : Bool
  closed : Bool
  /-- Whether nobody has the watch any more. -/
  dropped : Bool
  /-- Those who wait on the watch, in the order in which they came. Only the first is served. -/
  queue : List Nat
deriving DecidableEq

/-- What the one who is served meets. A signal that came before the cell ended comes first. -/
def Watch.signal (w : Watch) (c : Cell) : Signal :=
  if w.closed then .ended
  else if w.unseen then .changed
  else if c.ended then .ended
  else .waiting

/-- A store. Cells and watches are numbered in the order of their creation. -/
structure Store where
  /-- The cell of each key that has one. -/
  keys : List (String × Nat)
  cells : List Cell
  watches : List Watch
  nextWaiter : Nat
deriving DecidableEq

namespace Store

def empty : Store := ⟨[], [], [], 0⟩

def cell? (key : String) (s : Store) : Option Nat := s.keys.lookup key

/-- A key's cell, created if need be. -/
def cell (key : String) (s : Store) : Store × Nat :=
  match s.cell? key with
  | some c => (s, c)
  | none =>
    ({ s with keys := (key, s.cells.length) :: s.keys, cells := s.cells ++ [⟨none, false⟩] },
      s.cells.length)

def contentAt (c : Nat) (s : Store) : Option Value := (s.cells[c]?).bind Cell.content

def get (key : String) (s : Store) : Option Value := (s.cell? key).bind fun c => s.contentAt c

/-- Replaces the content of a key and signals its watches. -/
def write (key : String) (content : Option Value) (s : Store) : Store :=
  let (s, c) := s.cell key
  { s with
    cells := s.cells.modify c fun x => { x with content }
    watches := s.watches.map fun w => if w.cell = c then { w with unseen := true } else w }

/-- The version after that of the current value. A key without a value starts at one. -/
def nextVersion : Option Value → Int64
  | none => 1
  | some v => if v.version = Int64.maxValue then v.version else v.version + 1

/-- Stores data under the next version and tells that version. -/
def set (key : String) (data : List UInt8) (s : Store) : Store × Int64 :=
  let version := nextVersion (s.get key)
  (s.write key (some ⟨version, data⟩), version)

/-- Stores data under a given version, whatever the key holds. -/
def setWithVersion (key : String) (version : Int64) (data : List UInt8) (s : Store) : Store :=
  s.write key (some ⟨version, data⟩)

def delete (key : String) (s : Store) : Store := s.write key none

/-- Forgets a key and ends every watch on it. -/
def closeKey (key : String) (s : Store) : Store :=
  match s.cell? key with
  | none => s
  | some c =>
    { s with
      keys := s.keys.filter fun k => k.1 ≠ key
      cells := s.cells.modify c fun x => { x with ended := true } }

/-- Starts a watch on a key and tells its number. It is signalled at once if the key has a value. -/
def watch (key : String) (s : Store) : Store × Nat :=
  let (s, c) := s.cell key
  ({ s with watches := s.watches ++ [⟨c, (s.contentAt c).isSome, false, false, []⟩] },
    s.watches.length)

/-- How many watches on the key's cell somebody has. -/
def watcherCount (key : String) (s : Store) : Nat :=
  match s.cell? key with
  | none => 0
  | some c => s.watches.countP fun w => w.cell = c && !w.dropped

def contentOf (w : Nat) (s : Store) : Option Value :=
  (s.watches[w]?).bind fun x => s.contentAt x.cell

def closeWatch (w : Nat) (s : Store) : Store :=
  { s with watches := s.watches.modify w fun x => { x with closed := true } }

def dropWatch (w : Nat) (s : Store) : Store :=
  { s with watches := s.watches.modify w fun x => { x with dropped := true } }

def peek (w : Nat) (s : Store) : Signal :=
  match s.watches[w]? with
  | none => .ended
  | some x =>
    match s.cells[x.cell]? with
    | none => .ended
    | some c => x.signal c

/-- Serves a watch: a signal of change is taken. -/
def serve (w : Nat) (s : Store) : Store × Signal :=
  match s.peek w with
  | .changed => ({ s with watches := s.watches.modify w fun x => { x with unseen := false } }, .changed)
  | signal => (s, signal)

def queueOf (w : Nat) (s : Store) : List Nat := ((s.watches[w]?).map Watch.queue).getD []

def isClosed (w : Nat) (s : Store) : Bool := (s.watches[w]?).any Watch.closed

/-- Looks at a watch once, without staying to wait. Nobody is served before those who wait. -/
def look (w : Nat) (s : Store) : Store × Signal :=
  if s.isClosed w then (s, .ended)
  else if (s.queueOf w).isEmpty then s.serve w
  else (s, .waiting)

/-- The watch that somebody waits on. -/
def waitsOn (waiter : Nat) (s : Store) : Option Nat :=
  s.watches.findIdx? fun w => w.queue.contains waiter

/-- Stops waiting. The next one in the queue is then served. -/
def leave (waiter : Nat) (s : Store) : Store :=
  { s with watches := s.watches.map fun w => { w with queue := w.queue.filter (· ≠ waiter) } }

/-- What one who waits meets now. It waits no longer once it has been served. -/
def resume (waiter : Nat) (s : Store) : Store × Signal :=
  match s.waitsOn waiter with
  | none => (s, .ended)
  | some w =>
    if (s.queueOf w).head? = some waiter then
      match s.serve w with
      | (s, .waiting) => (s, .waiting)
      | (s, signal) => (s.leave waiter, signal)
    else (s, .waiting)

/-- Starts to wait on a watch, tells the number of the one who waits and what it meets at once. -/
def wait (w : Nat) (s : Store) : Store × Nat × Signal :=
  let waiter := s.nextWaiter
  let s := { s with nextWaiter := waiter + 1 }
  if s.isClosed w then (s, waiter, .ended)
  else
    let s := { s with watches := s.watches.modify w fun x => { x with queue := x.queue ++ [waiter] } }
    let (s, signal) := s.resume waiter
    (s, waiter, signal)

theorem cell?_cell (key : String) (s : Store) : (s.cell key).1.cell? key = some (s.cell key).2 := by
  unfold cell
  split
  · assumption
  · exact List.lookup_cons_self

theorem get_write (key : String) (content : Option Value) (s : Store)
    (h : (s.cell key).2 < (s.cell key).1.cells.length) : (s.write key content).get key = content := by
  have hcell : (s.write key content).cell? key = some (s.cell key).2 := cell?_cell key s
  rw [get, hcell]
  simp [contentAt, write, List.getElem?_modify, h]

end Store

end NamespaceTopology
