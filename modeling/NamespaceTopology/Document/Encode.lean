import NamespaceTopology.Document.Basic
import NamespaceTopology.Wire.Field

set_option autoImplicit false

/-!
Writing a document. Fields stand in the order of their numbers, and what has its blank value is left
out; a section that is present is written even when all of it is blank. `encodedLength` counts the
bytes without writing them.
-/
namespace NamespaceTopology.Document

open Wire

/-- A number in 64 bits, two's complement for a negative one. -/
def bits (n : Int64) : Nat := n.toUInt64.toNat

def writeFlag (number : Nat) (b : Bool) : List UInt8 := if b then writeNumber number 1 else []

def writeNanos (number : Nat) (n : Int64) : List UInt8 :=
  if n = 0 then [] else writeNumber number (bits n)

def writeSection {α : Type} (number : Nat) (encode : α → List UInt8) : Option α → List UInt8
  | none => []
  | some s => writeCounted number (encode s)

def Retention.encode (r : Retention) : List UInt8 :=
  writeNanos 1 r.periodNanos ++ writeNanos 2 r.blockSizeNanos ++
    writeNanos 3 r.bufferFutureNanos ++ writeNanos 4 r.bufferPastNanos ++ writeFlag 5 r.expiry ++
    writeNanos 6 r.expiryAfterNanos

def Index.encode (x : Index) : List UInt8 := writeFlag 1 x.enabled ++ writeNanos 2 x.blockSizeNanos

def Entry.encode (e : Entry) : List UInt8 :=
  writeFlag 1 e.bootstrap ++ writeFlag 2 e.flush ++ writeFlag 3 e.commitLog ++
    writeFlag 4 e.cleanup ++ writeFlag 5 e.repair ++
    writeSection 6 Retention.encode e.retention ++ writeFlag 7 e.snapshot ++
    writeSection 8 Index.encode e.index ++ writeFlag 9 e.coldWrites

def encodePair (pair : String × Entry) : List UInt8 :=
  (if pair.1 = "" then [] else writeCounted 1 (Text.utf8 pair.1)) ++
    if pair.2 = .blank then [] else writeCounted 2 pair.2.encode

def encodePairs (pairs : List (String × Entry)) : List UInt8 :=
  pairs.flatMap fun pair => writeCounted 1 (encodePair pair)

/-- How many bytes a field takes whose payload takes `n`. All numbers in use have keys of one byte. -/
def fieldLength (n : Nat) : Nat := 1 + n

def countedLength (n : Nat) : Nat := fieldLength (varintLength n + n)

def flagLength (b : Bool) : Nat := if b then fieldLength 1 else 0

def nanosLength (n : Int64) : Nat := if n = 0 then 0 else fieldLength (varintLength (bits n))

def sectionLength {α : Type} (length : α → Nat) : Option α → Nat
  | none => 0
  | some s => countedLength (length s)

def Retention.encodedLength (r : Retention) : Nat :=
  nanosLength r.periodNanos + nanosLength r.blockSizeNanos + nanosLength r.bufferFutureNanos +
    nanosLength r.bufferPastNanos + flagLength r.expiry + nanosLength r.expiryAfterNanos

def Index.encodedLength (x : Index) : Nat := flagLength x.enabled + nanosLength x.blockSizeNanos

def Entry.encodedLength (e : Entry) : Nat :=
  flagLength e.bootstrap + flagLength e.flush + flagLength e.commitLog + flagLength e.cleanup +
    flagLength e.repair + sectionLength Retention.encodedLength e.retention +
    flagLength e.snapshot + sectionLength Index.encodedLength e.index + flagLength e.coldWrites

def pairLength (pair : String × Entry) : Nat :=
  (if pair.1 = "" then 0 else countedLength pair.1.utf8ByteSize) +
    if pair.2 = .blank then 0 else countedLength pair.2.encodedLength

end NamespaceTopology.Document

namespace NamespaceTopology

/-- The bytes of a document, its entries in the order of their ids. -/
def Document.encode (d : Document) : List UInt8 := Document.encodePairs d.items

def Document.encodedLength (d : Document) : Nat :=
  d.items.foldl (fun total pair => total + Document.countedLength (Document.pairLength pair)) 0

end NamespaceTopology
