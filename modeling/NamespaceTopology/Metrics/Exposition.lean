import NamespaceTopology.Error
import NamespaceTopology.Keyed
import NamespaceTopology.Number.Binary64
import NamespaceTopology.Text.Quoted

set_option autoImplicit false

/-!
An exposition shows metrics to whoever collects them. A collector is known by its name and the values of
its constant labels: while one is live no other can be registered under the same. All that have one name
must have one shape, even when the first of them is gone.
-/
namespace NamespaceTopology

/-- Labels are named by ASCII letters, digits and underscores, with no digit in front. -/
def isLabelName (s : String) : Bool :=
  match s.toList with
  | [] => false
  | c :: cs => (c.isAlpha || c = '_') && cs.all fun c => c.isAlphanum || c = '_'

abbrev LabelName := { s : String // isLabelName s = true }

structure Label where
  name : LabelName
  value : String
deriving DecidableEq

inductive MetricKind where
  | counter
  | gauge
  | histogram
deriving DecidableEq, Repr

inductive MetricSource where
  | rejectedUpdates (owner : Nat)
  | currentVersion (owner : Nat)
  /-- A fixed value, or nothing to show. -/
  | fixed (value : Option Int)
deriving DecidableEq, Repr

structure Description where
  help : String
  /-- The labels that everything from the collector carries. -/
  constants : Keyed fun x : Label => x.name.val
  /-- The names of the labels that tell apart what comes from the collector. -/
  varying : Keyed fun x : LabelName => x.val
deriving DecidableEq

def Description.plain (help : String) : Description := ⟨help, .empty, .empty⟩

structure Collector where
  name : String
  description : Description
  kind : MetricKind
  source : MetricSource
deriving DecidableEq

/-- What no two live collectors share: the name and the values of the constant labels, in the order of
the names of these. -/
structure Identity where
  name : String
  values : List String
deriving DecidableEq, Repr

/-- What all collectors of one name share. -/
structure Shape where
  name : String
  help : String
  constants : List String
  varying : List String
deriving DecidableEq, Repr

def Collector.identity (c : Collector) : Identity :=
  ⟨c.name, c.description.constants.items.map Label.value⟩

def Collector.shape (c : Collector) : Shape :=
  ⟨c.name, c.description.help, c.description.constants.keys, c.description.varying.keys⟩

def isMetricStart (c : Char) : Bool := c.isAlpha || c = '_' || c = ':'

def isMetricName (s : String) : Bool :=
  match s.toList with
  | [] => false
  | c :: cs => isMetricStart c && cs.all fun c => isMetricStart c || c.isDigit

/-- What keeps a collector from being made. -/
def Collector.fault? (c : Collector) : Option MetricsError :=
  if c.description.help = "" then some (.rejected "empty help string")
  else if isMetricName c.name = false then
    some (.rejected ("'" ++ c.name ++ "' is not a valid metric name"))
  else none

/-- What a message shows of a collector. -/
def Collector.debugText (c : Collector) : String :=
  dumpPartial "Desc" [("fq_name", Text.quoted c.name), ("help", Text.quoted c.description.help)]

/-- The sum of samples, rounded to a floating-point number after each. -/
def sumSamples (samples : List Int) : Int :=
  samples.foldl (fun total x => Binary64.roundInt (total + Binary64.roundInt x)) 0

structure Exposition where
  /-- The live collectors, in the order of their registration. -/
  live : List Collector
  distinct : live.Pairwise fun c d => c.identity ≠ d.identity
  /-- The shape that each name was first registered with. -/
  known : Keyed Shape.name

namespace Exposition

def empty : Exposition := ⟨[], .nil, .empty⟩

def find? (identity : Identity) (e : Exposition) : Option Collector :=
  e.live.find? fun c => c.identity = identity

theorem identity_ne_of_find? {c : Collector} {identity : Identity} {e : Exposition}
    (h : e.find? identity = none) (hc : c ∈ e.live) : c.identity ≠ identity := by
  simpa using List.find?_eq_none.mp h c hc

/-- Adds a collector that nothing live is mistaken for. -/
def add (c : Collector) (e : Exposition) (h : e.find? c.identity = none) : Exposition where
  live := e.live ++ [c]
  distinct := by
    refine List.pairwise_append.mpr ⟨e.distinct, List.pairwise_singleton _ c, fun d hd x hx => ?_⟩
    rw [List.mem_singleton.mp hx]
    exact identity_ne_of_find? h hd
  known := e.known.insert c.shape

def register (c : Collector) (e : Exposition) : Except MetricsError Exposition :=
  match h : e.find? c.identity with
  | some _ => .error .alreadyRegistered
  | none =>
    if (e.known.find? c.name).any fun first => first ≠ c.shape then
      .error (.rejected ("a previously registered descriptor with the same fully-qualified name as "
        ++ c.debugText ++ " has different label names or a different help string"))
    else .ok (e.add c h)

/-- Takes the live collector with the identity of this one away, whoever registered it. -/
def unregister (c : Collector) (e : Exposition) : Except MetricsError Exposition :=
  if (e.find? c.identity).isSome then
    .ok { e with
      live := e.live.filter fun d => d.identity ≠ c.identity
      distinct := e.distinct.sublist List.filter_sublist }
  else .error (.rejected ("collector [" ++ c.debugText ++ "] is not registered"))

end Exposition

end NamespaceTopology
