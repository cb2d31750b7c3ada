import NamespaceTopology.Document.Basic
import NamespaceTopology.Namespace.Topology

set_option autoImplicit false

/-!
From a document to the topology it describes and back. A document is taken whole or not at all.
-/
namespace NamespaceTopology

def Span.ofNanos (field : String) (n : Int64) : Except OptionsFault Span :=
  if n.toInt < 0 then .error (.negative field n) else .ok ⟨n.toInt.toNat⟩

/-- A length of time in signed 64-bit nanoseconds, the greatest such number if it is longer. -/
def Span.toNanos (d : Span) : Int64 :=
  if d.nanos < 9223372036854775808 then Int64.ofNat d.nanos else Int64.maxValue

namespace Document

def Index.toIndex : Option Index → Except OptionsFault NamespaceTopology.Index
  | none => .ok .default
  | some x => do
    let blockSize ← Span.ofNanos "index block size" x.blockSizeNanos
    .ok ⟨x.enabled, blockSize⟩

def Retention.toRetention (r : Retention) : Except OptionsFault NamespaceTopology.Retention := do
  let period ← Span.ofNanos "retention period" r.periodNanos
  let blockSize ← Span.ofNanos "block size" r.blockSizeNanos
  let bufferFuture ← Span.ofNanos "buffer future" r.bufferFutureNanos
  let bufferPast ← Span.ofNanos "buffer past" r.bufferPastNanos
  let expiryAfter ← Span.ofNanos "block data expiry period" r.expiryAfterNanos
  .ok ⟨period, blockSize, bufferFuture, bufferPast, r.expiry, expiryAfter⟩

def Entry.toOptions (e : Entry) (retention : Retention) : Except OptionsFault Options := do
  let index ← Index.toIndex e.index
  let retention ← retention.toRetention
  .ok ⟨e.bootstrap, e.flush, e.commitLog, e.cleanup, e.repair, e.snapshot, e.coldWrites, retention,
    index⟩

def Entry.toNamespace (id : String) (e : Entry) : Except NamespaceError Namespace :=
  match e.retention with
  | none => .error (.missingField id "retention options")
  | some retention =>
    match e.toOptions retention with
    | .error fault => .error (.invalidOptions id fault.message)
    | .ok options => Namespace.make id options

/-- The namespaces of entries, or the fault of the first entry that describes none. -/
def namespaces (pairs : List (String × Entry)) : Except NamespaceError (List Namespace) :=
  pairs.mapM fun pair => pair.2.toNamespace pair.1

def Index.ofIndex (x : NamespaceTopology.Index) : Index := ⟨x.enabled, x.blockSize.toNanos⟩

def Retention.ofRetention (r : NamespaceTopology.Retention) : Retention :=
  ⟨r.period.toNanos, r.blockSize.toNanos, r.bufferFuture.toNanos, r.bufferPast.toNanos, r.expiry,
    r.expiryAfter.toNanos⟩

def Entry.ofOptions (o : Options) : Entry :=
  ⟨o.bootstrap, o.flush, o.commitLog, o.cleanup, o.repair, some (.ofRetention o.retention),
    o.snapshot, some (.ofIndex o.index), o.coldWrites⟩

end Document

/-- The topology that a document describes, its entries being looked at in the given order. -/
def Topology.ofEntries (pairs : List (String × Document.Entry)) : Except NamespaceError Topology := do
  Topology.ofNamespaces (← Document.namespaces pairs)

def Topology.ofDocument (d : Document) : Except NamespaceError Topology :=
  Topology.ofEntries d.items

def Topology.toDocument (t : Topology) : Document where
  items := t.items.map fun n => (n.id, Document.Entry.ofOptions n.options)
  ascending := by
    rw [List.pairwise_map]
    exact t.ascending

end NamespaceTopology
