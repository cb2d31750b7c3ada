import NamespaceTopology.Registry.Basic
import NamespaceTopology.Store.Feed

set_option autoImplicit false

/-!
A node: one process with its store, its registries and the tasks that run between the calls of its
users. Time is virtual. It stands still until the node is told to let it pass, and tasks run only
when the node is told to run them.

Objects are numbered by kind, in the order of their creation.
-/
namespace NamespaceTopology

inductive Remote where
  | watch (w : Nat)
  | feed
deriving DecidableEq, Repr

/-- A dynamic registry with its two tasks, the update loop and the sampler. -/
structure Follower where
  registry : Dynamic
  remote : Remote
  exposition : String
  loopDone : Bool
  samplerDone : Bool
  /-- When the next sample is due, in nanoseconds. The sampler has not started without one. -/
  nextSample : Option Nat

/-- How far a call that initializes a registry has come. -/
inductive Stage where
  | fresh
  | queued
  /-- It waits for a first value until the deadline, in nanoseconds. -/
  | waiting (remote : Remote) (deadline : Nat)
  | finished (result : Except Error Nat)
  | abandoned

structure Attempt where
  initializer : Nat
  stage : Stage
  /-- Whether its caller gives it up. It learns that when it runs next. -/
  cancelled : Bool

structure Initializer where
  options : DynamicOptions
  registry : Option Nat
  /-- The calls that have come, of which the first has its turn. -/
  queue : List Nat

structure Meter where
  exposition : String
  instruments : Instruments

/-- What a consumer gets: a text from a hub of texts, or a topology from a registry. -/
inductive Item where
  | text (s : String)
  | topology (t : Topology)
deriving DecidableEq

/-- Who publishes: a hub of texts or a registry. -/
inductive Source where
  | hub (h : Nat)
  | dynamic (r : Nat)
  | static (r : Nat)
deriving DecidableEq, Repr

/-- A task that consumes a subscription, up to the first answer or to the end. -/
structure Consumer where
  source : Source
  /-- The subscription, until it is given back. -/
  subscription : Option Nat
  collects : Bool
  /-- What has come and has not been looked at. -/
  results : List (Delivery Item)
  done : Bool

inductive Task where
  | updates (r : Nat)
  | samples (r : Nat)
  | attempt (a : Nat)
  | consumer (c : Nat)
deriving DecidableEq, Repr

structure Node where
  /-- Milliseconds since the start. -/
  now : Nat
  store : Store
  feed : Feed
  /-- A registry that will be closed while the feed is read next. -/
  closeOnRead : Option Nat
  expositions : List (String × Exposition)
  meters : List Meter
  nextOwner : Nat
  hubs : List (Hub String)
  statics : List Static
  followers : List Follower
  initializers : List Initializer
  attempts : List Attempt
  consumers : List Consumer
  /-- The tasks that have not finished, in the order of their creation. -/
  tasks : List Task
  /-- The tasks that stand in line for a turn. -/
  ready : List Task
  notices : List Notice

namespace Node

def start : Node where
  now := 0
  store := .empty
  feed := .start
  closeOnRead := none
  expositions := []
  meters := []
  nextOwner := 0
  hubs := []
  statics := []
  followers := []
  initializers := []
  attempts := []
  consumers := []
  tasks := []
  ready := []
  notices := []

def nanos (n : Node) : Nat := n.now * 1000000

def tell (notices : List Notice) (n : Node) : Node := { n with notices := n.notices ++ notices }

/-- Starts a task, which stands in line for its first turn. -/
def addTask (t : Task) (n : Node) : Node :=
  { n with tasks := n.tasks ++ [t], ready := n.ready ++ [t] }

def endTask (t : Task) (n : Node) : Node := { n with tasks := n.tasks.filter fun u => u ≠ t }

def modifyFollower (r : Nat) (f : Follower → Follower) (n : Node) : Node :=
  { n with followers := n.followers.modify r f }

def modifyAttempt (a : Nat) (f : Attempt → Attempt) (n : Node) : Node :=
  { n with attempts := n.attempts.modify a f }

def modifyInitializer (i : Nat) (f : Initializer → Initializer) (n : Node) : Node :=
  { n with initializers := n.initializers.modify i f }

def modifyConsumer (c : Nat) (f : Consumer → Consumer) (n : Node) : Node :=
  { n with consumers := n.consumers.modify c f }

def exposition (name : String) (n : Node) : Exposition := (n.expositions.lookup name).getD .empty

def setExposition (name : String) (e : Exposition) (n : Node) : Node :=
  { n with expositions := (name, e) :: n.expositions.filter fun x => x.1 ≠ name }

def instruments? (owner : Nat) (n : Node) : Option Instruments :=
  (n.meters.map Meter.instruments ++ n.followers.map fun f => f.registry.instruments).find? fun i =>
    i.owner = owner

def gather (name : String) (n : Node) : List Reading :=
  (n.exposition name).gather fun owner => n.instruments? owner

def createInstruments (exposition scope : String) (n : Node) : Node × Except MetricsError Instruments :=
  let made := Instruments.create n.nextOwner scope (n.exposition exposition)
  ({ n.setExposition exposition made.exposition with nextOwner := n.nextOwner + 1 }.tell made.notices,
    made.result)

def addMeter (exposition scope : String) (n : Node) : Node × Except Error Nat :=
  match n.createInstruments exposition scope with
  | (n, .ok i) => ({ n with meters := n.meters ++ [⟨exposition, i⟩] }, .ok n.meters.length)
  | (n, .error cause) => (n, .error (.metrics cause))

def modifyMeter (m : Nat) (f : Instruments → Instruments) (n : Node) : Node :=
  { n with meters := n.meters.modify m fun x => { x with instruments := f x.instruments } }

def withdraw (m : Nat) (n : Node) : Node :=
  match n.meters[m]? with
  | none => n
  | some x =>
    let (i, e, notices) := x.instruments.withdraw (n.exposition x.exposition)
    ((n.modifyMeter m fun _ => i).setExposition x.exposition e).tell notices

def register (exposition : String) (c : Collector) (n : Node) : Except MetricsError Node :=
  match c.fault? with
  | some cause => .error cause
  | none => (n.exposition exposition).register c |>.map fun e => n.setExposition exposition e

/-- Takes a collector out of an exposition, whoever registered it, and tells whether it was there. -/
def unregister (exposition : String) (c : Collector) (n : Node) : Node × Bool :=
  match (n.exposition exposition).unregister c with
  | .ok e => (n.setExposition exposition e, true)
  | .error _ => (n, false)

end Node

end NamespaceTopology
