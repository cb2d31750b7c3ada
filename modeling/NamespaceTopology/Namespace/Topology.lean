import NamespaceTopology.Error
import NamespaceTopology.Keyed
import NamespaceTopology.Namespace.Options

set_option autoImplicit false

/-!
Namespaces and the topology they form. A namespace has a non-empty id and options that break no rule;
a topology has its namespaces in the byte order of their ids, one for each id. A diagnostic dump shows
every option of every namespace.
-/
namespace NamespaceTopology

structure Namespace where
  id : String
  options : Options
  id_ne_empty : id ≠ ""
  options_valid : options.fault? = none
deriving DecidableEq

def Namespace.make (id : String) (options : Options) : Except NamespaceError Namespace :=
  if hid : id = "" then .error .emptyId
  else match hfault : options.fault? with
    | some fault => .error (.invalidOptions id fault.message)
    | none => .ok ⟨id, options, hid, hfault⟩

abbrev Topology := Keyed Namespace.id

namespace Topology

/-- Adds namespaces one after another. The first whose id is taken is refused. -/
def extend : Topology → List Namespace → Except NamespaceError Topology
  | t, [] => .ok t
  | t, n :: ns =>
    if (t.find? n.id).isSome then .error (.duplicate n.id) else extend (t.insert n) ns

/-- The topology of at least one namespace with distinct ids. -/
def ofNamespaces (ns : List Namespace) : Except NamespaceError Topology := do
  let t ← extend Keyed.empty ns
  if t.isEmpty then .error .noMetadata else .ok t

/-- The ids with the retention period of each, the shortest account of a topology. -/
def periods (t : Topology) : List (String × Span) :=
  t.items.map fun n => (n.id, n.options.retention.period)

end Topology

def Retention.debugText (r : Retention) : String :=
  dumpRecord "RetentionOptions" [("retention_period", r.period.text), ("block_size", r.blockSize.text),
    ("buffer_future", r.bufferFuture.text), ("buffer_past", r.bufferPast.text),
    ("block_data_expiry", toString r.expiry),
    ("block_data_expiry_after_not_accessed_period", r.expiryAfter.text)]

def Index.debugText (x : Index) : String :=
  dumpRecord "IndexOptions" [("enabled", toString x.enabled), ("block_size", x.blockSize.text)]

def Options.debugText (o : Options) : String :=
  dumpRecord "NamespaceOptions" [("bootstrap_enabled", toString o.bootstrap),
    ("flush_enabled", toString o.flush), ("writes_to_commit_log", toString o.commitLog),
    ("cleanup_enabled", toString o.cleanup), ("repair_enabled", toString o.repair),
    ("snapshot_enabled", toString o.snapshot), ("cold_writes_enabled", toString o.coldWrites),
    ("retention", o.retention.debugText), ("index", o.index.debugText)]

def Namespace.debugText (n : Namespace) : String :=
  dumpRecord "NamespaceMetadata" [("id", Text.quoted n.id), ("options", n.options.debugText)]

def Topology.debugText (t : Topology) : String :=
  let entries := t.items.map fun n => Text.quoted n.id ++ ": " ++ n.debugText
  dumpRecord "NamespaceMap" [("namespaces", "\x7b" ++ ", ".intercalate entries ++ "\x7d")]

end NamespaceTopology
