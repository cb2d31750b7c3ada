import NamespaceTopology.Keyed

set_option autoImplicit false

/-!
The namespace document as the remote store holds it: one entry for each namespace id. Lengths of time
are signed nanoseconds, and a section may be absent.
-/
namespace NamespaceTopology.Document

structure Retention where
  periodNanos : Int64
  blockSizeNanos : Int64
  bufferFutureNanos : Int64
  bufferPastNanos : Int64
  expiry : Bool
  expiryAfterNanos : Int64
deriving DecidableEq

structure Index where
  enabled : Bool
  blockSizeNanos : Int64
deriving DecidableEq

structure Entry where
  bootstrap : Bool
  flush : Bool
  commitLog : Bool
  cleanup : Bool
  repair : Bool
  retention : Option Retention
  snapshot : Bool
  index : Option Index
  coldWrites : Bool
deriving DecidableEq

def Retention.blank : Retention := ⟨0, 0, 0, 0, false, 0⟩

def Index.blank : Index := ⟨false, 0⟩

def Entry.blank : Entry := ⟨false, false, false, false, false, none, false, none, false⟩

end NamespaceTopology.Document

namespace NamespaceTopology

/-- Entries by namespace id. -/
abbrev Document := Keyed (Prod.fst : String × Document.Entry → String)

end NamespaceTopology
