import NamespaceTopology.Broadcast.Hub
import NamespaceTopology.Metrics.Instruments
import NamespaceTopology.Registry.Options
import NamespaceTopology.Store.Value

set_option autoImplicit false

/-!
The two kinds of registry. A static one serves one topology, which never changes: a watch on it gets
the topology once and then waits until the registry is closed. A dynamic one serves the topology of the
latest good value of one key. An update is applied only if it is present, newer than the current value,
readable, and different from the topology now served; any other is counted and dropped, so consumers
see valid topologies only.
-/
namespace NamespaceTopology

structure Static where
  topology : Topology
  closed : Bool
  hub : Hub Topology
deriving DecidableEq

namespace Static

def start (t : Topology) : Static := ⟨t, false, .start (some t)⟩

def watch (r : Static) : Except Error (Static × Nat) :=
  match r.hub.subscribe with
  | .ok (hub, id) => .ok ({ r with hub }, id)
  | .error _ => .error (.lifecycle .closed)

def close (r : Static) : Except Error Static :=
  if r.closed then .error (.lifecycle .alreadyClosed)
  else
    let hub := match r.hub.close with
      | .ok hub => hub
      | .error _ => r.hub
    .ok { r with closed := true, hub }

end Static

/-- Why an update is dropped. -/
inductive Rejection where
  | absent
  | stale (version : Int64) (current : Option Int64)
  | invalid (version : Int64) (cause : NamespaceError)
  | unchanged (version : Int64)
  /-- The registry was closed before the update could be applied. -/
  | closed (version : Int64)
deriving DecidableEq

namespace Rejection

def versionText : Option Int64 → String
  | none => "None"
  | some v => dumpTuple "Some" [toString v.toInt]

def text : Rejection → String
  | .absent => "received absent value"
  | .stale version current =>
    "received version " ++ toString version.toInt ++ " not newer than current " ++ versionText current
  | .invalid version cause =>
    "received invalid update at version " ++ toString version.toInt ++ ": " ++ cause.message
  | .unchanged version => "received identical update at version " ++ toString version.toInt
  | .closed version =>
    "registry closed before version " ++ toString version.toInt ++ " could be applied"

end Rejection

structure Dynamic where
  key : String
  reportInterval : Span
  /-- The value that the topology was read from. -/
  value : Option Value
  topology : Topology
  closed : Bool
  hub : Hub Topology
  instruments : Instruments
deriving DecidableEq

namespace Dynamic

/-- A registry that starts with a value and the topology read from it, or with nothing. -/
def start (o : DynamicOptions) (instruments : Instruments) (first : Option (Value × Topology)) :
    Dynamic where
  key := o.key
  reportInterval := o.reportInterval
  value := first.map Prod.fst
  topology := (first.map Prod.snd).getD Keyed.empty
  closed := false
  hub := .start (first.map Prod.snd)
  instruments := instruments

def version (d : Dynamic) : Option Int64 := d.value.map Value.version

/-- Replaces the value and the topology together and publishes the topology. -/
def apply (v : Value) (t : Topology) (d : Dynamic) : Dynamic × List Notice :=
  let d := { d with value := some v, topology := t }
  match d.hub.update t with
  | .ok hub => ({ d with hub }, [])
  | .error e => (d, [.warning ("dynamic namespace registry could not publish version "
      ++ toString v.version.toInt ++ ": " ++ e.message)])

/-- What an update brings: the value and the topology to apply, or why it is dropped. -/
def examine (content : Option Value) (d : Dynamic) : Except Rejection (Value × Topology) :=
  match content with
  | none => .error .absent
  | some v =>
    if v.isNewer d.value = false then .error (.stale v.version d.version)
    else match v.topology with
      | .error cause => .error (.invalid v.version cause)
      | .ok t =>
        if t = d.topology then .error (.unchanged v.version)
        else if d.closed then .error (.closed v.version)
        else .ok (v, t)

/-- Takes an update in. A dropped one is counted, unless it only came too late. -/
def receive (content : Option Value) (d : Dynamic) : Dynamic × List Notice :=
  match d.examine content with
  | .ok (v, t) => d.apply v t
  | .error (.closed _) => (d, [])
  | .error rejection => ({ d with instruments := d.instruments.count 1 },
      [.warning ("dynamic namespace registry " ++ rejection.text ++ ", skipping")])

/-- Reports the version in use, if there is one. -/
def sample (d : Dynamic) : Dynamic :=
  match d.version with
  | some v => if d.closed then d else { d with instruments := d.instruments.report v.toInt }
  | none => d

/-- Starts a watch on the topologies that are served from now on. -/
def watch (d : Dynamic) : Except Error (Dynamic × Nat) :=
  if d.closed then .error (.lifecycle .closed)
  else match d.hub.subscribe with
    | .ok (hub, id) => .ok ({ d with hub }, id)
    | .error _ => .error (.lifecycle .closed)

/-- Closes the registry, which ends every watch on it and takes its metrics back. -/
def close (d : Dynamic) (e : Exposition) : Except Error (Dynamic × Exposition × List Notice) :=
  if d.closed then .error (.lifecycle .alreadyClosed)
  else
    let hub := match d.hub.close with
      | .ok hub => hub
      | .error _ => d.hub
    let (instruments, e, notices) := d.instruments.withdraw e
    .ok ({ d with closed := true, hub, instruments }, e, notices)

/-- Takes the metrics back while the registry goes on. -/
def withdraw (d : Dynamic) (e : Exposition) : Dynamic × Exposition × List Notice :=
  let (instruments, e, notices) := d.instruments.withdraw e
  ({ d with instruments }, e, notices)

def debugText (d : Dynamic) : String :=
  let value := match d.value with
    | none => "None"
    | some v => dumpTuple "Some" [v.debugText]
  dumpPartial "DynamicRegistry" [("key", Text.quoted d.key),
    ("state", dumpRecord "RegistryState" [("current_value", value),
      ("current_map", d.topology.debugText), ("closed", toString d.closed)])]

end Dynamic

end NamespaceTopology
