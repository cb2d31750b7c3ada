import NamespaceTopology.Document.Basic
import NamespaceTopology.Wire.Field

set_option autoImplicit false

/-!
Reading a document. Fields may come in any order: of a repeated one the later value stays, sections
of one kind are joined field by field, and an entry replaces an earlier entry of its id. Fields with
unknown numbers are passed over; a known one with a payload of another kind is refused.
-/
namespace NamespaceTopology.Document

open Wire

/-- A flag holds unless its number is zero. -/
def asFlag : Payload → Option Bool
  | .number n => some (n ≠ 0)
  | _ => none

def asNanos : Payload → Option Int64
  | .number n => some (UInt64.ofNat n).toInt64
  | _ => none

def asBytes : Payload → Option (List UInt8)
  | .counted bytes => some bytes
  | _ => none

/-- No field is read against what its key announces. -/
def announced (_ : Nat) : Bool := false

def Retention.merge (r : Retention) (f : Field) : Option Retention :=
  match f.number with
  | 1 => (asNanos f.payload).map ({ r with periodNanos := · })
  | 2 => (asNanos f.payload).map ({ r with blockSizeNanos := · })
  | 3 => (asNanos f.payload).map ({ r with bufferFutureNanos := · })
  | 4 => (asNanos f.payload).map ({ r with bufferPastNanos := · })
  | 5 => (asFlag f.payload).map ({ r with expiry := · })
  | 6 => (asNanos f.payload).map ({ r with expiryAfterNanos := · })
  | _ => some r

def Index.merge (x : Index) (f : Field) : Option Index :=
  match f.number with
  | 1 => (asFlag f.payload).map ({ x with enabled := · })
  | 2 => (asNanos f.payload).map ({ x with blockSizeNanos := · })
  | _ => some x

/-- Adds the fields in the bytes to a section, groups standing at most `depth` deep. -/
def Retention.join (depth : Nat) (r : Retention) (bytes : List UInt8) : Option Retention := do
  (← readFields announced depth bytes).foldlM Retention.merge r

def Index.join (depth : Nat) (x : Index) (bytes : List UInt8) : Option Index := do
  (← readFields announced depth bytes).foldlM Index.merge x

def Entry.merge (depth : Nat) (e : Entry) (f : Field) : Option Entry :=
  match f.number with
  | 1 => (asFlag f.payload).map ({ e with bootstrap := · })
  | 2 => (asFlag f.payload).map ({ e with flush := · })
  | 3 => (asFlag f.payload).map ({ e with commitLog := · })
  | 4 => (asFlag f.payload).map ({ e with cleanup := · })
  | 5 => (asFlag f.payload).map ({ e with repair := · })
  | 6 => do
    let r ← (e.retention.getD .blank).join (depth - 1) (← asBytes f.payload)
    some { e with retention := some r }
  | 7 => (asFlag f.payload).map ({ e with snapshot := · })
  | 8 => do
    let x ← (e.index.getD .blank).join (depth - 1) (← asBytes f.payload)
    some { e with index := some x }
  | 9 => (asFlag f.payload).map ({ e with coldWrites := · })
  | _ => some e

def Entry.join (depth : Nat) (e : Entry) (bytes : List UInt8) : Option Entry := do
  (← readFields announced depth bytes).foldlM (Entry.merge depth) e

def mergePair (depth : Nat) (pair : String × Entry) (f : Field) : Option (String × Entry) :=
  match f.number with
  | 1 => do
    let id ← Text.ofUtf8? (← asBytes f.payload)
    some (id, pair.2)
  | 2 => do
    let e ← pair.2.join (depth - 1) (← asBytes f.payload)
    some (pair.1, e)
  | _ => some pair

/-- The id and entry in the bytes. What is not there is blank. -/
def readPair (depth : Nat) (bytes : List UInt8) : Option (String × Entry) := do
  (← readFields announced depth bytes).foldlM (mergePair depth) ("", .blank)

/-- Entries are counted bytes, whatever their key announces. -/
def isEntry (number : Nat) : Bool := number == 1

def merge (d : Document) (f : Field) : Option Document :=
  if isEntry f.number then do
    let pair ← readPair (groupLimit - 1) (← asBytes f.payload)
    some (d.insert pair)
  else some d

def Retention.decode (bytes : List UInt8) : Option Retention :=
  Retention.blank.join groupLimit bytes

def Index.decode (bytes : List UInt8) : Option Index := Index.blank.join groupLimit bytes

def Entry.decode (bytes : List UInt8) : Option Entry := Entry.blank.join groupLimit bytes

end NamespaceTopology.Document

namespace NamespaceTopology

def Document.decode (bytes : List UInt8) : Option Document := do
  (← Wire.readFields Document.isEntry Wire.groupLimit bytes).foldlM Document.merge Keyed.empty

end NamespaceTopology
