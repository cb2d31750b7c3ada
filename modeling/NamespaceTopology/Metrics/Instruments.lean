import NamespaceTopology.Error
import NamespaceTopology.Metrics.Exposition
import NamespaceTopology.Number.Shortest

set_option autoImplicit false

/-!
The instruments of one registry: a counter of rejected updates and a gauge of the version in use. Two
registries may share a scope. Then the names are taken when the second one comes: it counts all the
same, but shows only what it could register itself, and takes back only that.
-/
namespace NamespaceTopology

structure Instruments where
  owner : Nat
  scope : String
  rejected : UInt64
  version : Int
  /-- Whether the counter is the one that the exposition shows. -/
  counterShown : Bool
  /-- Whether the gauge is the one that the exposition shows. -/
  gaugeShown : Bool
deriving DecidableEq

namespace Instruments

def metricName (scope name : String) : String := if scope = "" then name else scope ++ "_" ++ name

def counterOf (owner : Nat) (scope : String) : Collector where
  name := metricName scope "invalid_update"
  description := .plain "Number of namespace registry updates rejected"
  kind := .counter
  source := .rejectedUpdates owner

def gaugeOf (owner : Nat) (scope : String) : Collector where
  name := metricName scope "current_version"
  description := .plain "Version of the namespace registry value in use"
  kind := .gauge
  source := .currentVersion owner

def counter (i : Instruments) : Collector := counterOf i.owner i.scope

def gauge (i : Instruments) : Collector := gaugeOf i.owner i.scope

/-- What a try to change an exposition gives: the exposition after it and what is told. -/
structure Attempted (α : Type) where
  result : Except MetricsError α
  exposition : Exposition
  notices : List Notice

/-- Registers one collector and tells whether it is now the one shown. A live one of the same name is
no failure. -/
def register (c : Collector) (e : Exposition) : Attempted Bool :=
  match e.register c with
  | .ok e => ⟨.ok true, e, []⟩
  | .error .alreadyRegistered => ⟨.ok false, e,
      [.warning "metric collector already registered by a live registry, keeping it unexported"]⟩
  | .error cause => ⟨.error cause, e, []⟩

def unregister (c : Collector) (e : Exposition) : Exposition × List Notice :=
  match e.unregister c with
  | .ok e => (e, [])
  | .error cause => (e, [.warning ("failed to unregister metric collector: " ++ cause.message)])

/-- New instruments, registered under a scope. If the gauge is refused the counter is taken back. -/
def create (owner : Nat) (scope : String) (e : Exposition) : Attempted Instruments :=
  match ((counterOf owner scope).fault?).or (gaugeOf owner scope).fault? with
  | some cause => ⟨.error cause, e, []⟩
  | none =>
    let first := register (counterOf owner scope) e
    match first.result with
    | .error cause => ⟨.error cause, first.exposition, first.notices⟩
    | .ok counterShown =>
      let second := register (gaugeOf owner scope) first.exposition
      let notices := first.notices ++ second.notices
      match second.result with
      | .ok gaugeShown =>
        ⟨.ok ⟨owner, scope, 0, 0, counterShown, gaugeShown⟩, second.exposition, notices⟩
      | .error cause =>
        if counterShown then
          let (e, more) := unregister (counterOf owner scope) second.exposition
          ⟨.error cause, e, notices ++ more⟩
        else ⟨.error cause, second.exposition, notices⟩

def withdraw (i : Instruments) (e : Exposition) : Instruments × Exposition × List Notice :=
  let (e, first) := if i.counterShown then unregister i.counter e else (e, [])
  let (e, second) := if i.gaugeShown then unregister i.gauge e else (e, [])
  ({ i with counterShown := false, gaugeShown := false }, e, first ++ second)

def count (n : UInt64) (i : Instruments) : Instruments := { i with rejected := i.rejected + n }

/-- Reports a version, as the nearest floating-point number. -/
def report (version : Int) (i : Instruments) : Instruments :=
  { i with version := Binary64.roundInt version }

def debugText (i : Instruments) : String :=
  dumpRecord "RegistryMetrics" [("invalid_updates", toString i.rejected.toNat),
    ("current_version", Binary64.intText i.version),
    ("exported", "[" ++ toString i.counterShown ++ ", " ++ toString i.gaugeShown ++ "]")]

end Instruments

structure Reading where
  name : String
  kind : MetricKind
  value : Int
deriving DecidableEq, Repr

/-- The current value of a source, as a floating-point number. -/
def MetricSource.value (find : Nat → Option Instruments) : MetricSource → Option Int
  | .rejectedUpdates owner => (find owner).map fun i => Binary64.roundInt i.rejected.toNat
  | .currentVersion owner => (find owner).map Instruments.version
  | .fixed value => value

/-- Two readings of one name as one. The first decides what is read: of a counter beside a metric of
another kind nothing is. -/
def Reading.join (first r : Reading) : Reading :=
  if (first.kind = .counter) = (r.kind = .counter) then
    { first with value := Binary64.roundInt (first.value + r.value) }
  else first

/-- Everything that an exposition shows, by name. -/
def Exposition.gather (find : Nat → Option Instruments) (e : Exposition) : List Reading :=
  let readings := e.live.filterMap fun c =>
    (c.source.value find).map fun value => (⟨c.name, c.kind, value⟩ : Reading)
  let families : Keyed Reading.name := readings.foldl (fun all r =>
    all.insert (((all.find? r.name).map fun first => first.join r).getD r)) .empty
  families.items

end NamespaceTopology
