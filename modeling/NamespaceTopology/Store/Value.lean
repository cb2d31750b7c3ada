import NamespaceTopology.Document.Decode
import NamespaceTopology.Document.Topology

set_option autoImplicit false

/-!
What a store keeps under a key: bytes with a version. Versions order the values of one key; the bytes
are a namespace document if the key is the one that a registry follows.
-/
namespace NamespaceTopology

structure Value where
  version : Int64
  data : List UInt8
deriving DecidableEq

namespace Value

/-- Any value is newer than none, and otherwise the versions decide. -/
def isNewer (v : Value) : Option Value → Bool
  | none => true
  | some other => decide (other.version.toInt < v.version.toInt)

def read {α : Type} (v : Value) (decode : List UInt8 → Option α) : Except StoreError α :=
  match decode v.data with
  | some a => .ok a
  | none => .error (.undecodable v.version)

def topology (v : Value) : Except NamespaceError Topology :=
  match Document.decode v.data with
  | none => .error .unreadable
  | some d => Topology.ofDocument d

def debugText (v : Value) : String :=
  dumpRecord "Value" [("version", toString v.version.toInt), ("data", Text.quotedBytes v.data)]

theorem isNewer_some (v other : Value) :
    v.isNewer (some other) = true ↔ other.version.toInt < v.version.toInt := by
  simp [isNewer]

end Value

end NamespaceTopology
