import NamespaceTopology.Node.Basic

set_option autoImplicit false

/-!
The subscriptions of a node, whatever kind of hub they belong to, and the tasks that consume them.
-/
namespace NamespaceTopology

def Delivery.map {α β : Type} (f : α → β) : Delivery α → Delivery β
  | .value a => .value (f a)
  | .ended => .ended
  | .waiting => .waiting

namespace Node

/-- Asks a source's hub something that can be asked of every hub. -/
def askHub {β : Type} (source : Source) (default : β) (ask : {α : Type} → (α → Item) → Hub α → β)
    (n : Node) : β :=
  match source with
  | .hub h => ((n.hubs[h]?).map (ask .text)).getD default
  | .dynamic r => ((n.followers[r]?).map fun f => ask .topology f.registry.hub).getD default
  | .static r => ((n.statics[r]?).map fun s => ask .topology s.hub).getD default

/-- Changes a source's hub in a way that works for every hub. -/
def modifyHub (source : Source) (change : {α : Type} → Hub α → Hub α) (n : Node) : Node :=
  match source with
  | .hub h => { n with hubs := n.hubs.modify h change }
  | .dynamic r =>
    n.modifyFollower r fun f => { f with registry := { f.registry with hub := change f.registry.hub } }
  | .static r => { n with statics := n.statics.modify r fun s => { s with hub := change s.hub } }

def peek (source : Source) (id : Nat) (n : Node) : Delivery Item :=
  n.askHub source .ended fun item h => (h.peek id).map item

def next (source : Source) (id : Nat) (n : Node) : Node × Delivery Item :=
  (n.modifyHub source fun h => (h.next id).1, n.peek source id)

def held (source : Source) (id : Nat) (n : Node) : Option Item :=
  n.askHub source none fun item h => (h.get id).map item

def hasPending (source : Source) (id : Nat) (n : Node) : Bool :=
  n.askHub source false fun _ h => h.hasPending id

def unsubscribe (source : Source) (id : Nat) (n : Node) : Node :=
  n.modifyHub source fun h => h.drop id

def consume (source : Source) (id : Nat) (collects : Bool) (n : Node) : Node × Nat :=
  let c := n.consumers.length
  let x : Consumer := ⟨source, some id, collects, [], false⟩
  ({ n with consumers := n.consumers ++ [x] }.addTask (.consumer c), c)

/-- One answer for a consumer. It stops at the end, and if it does not collect after any answer. -/
def stepConsumer (c : Nat) (n : Node) : Node :=
  match n.consumers[c]? with
  | none => n.endTask (.consumer c)
  | some x =>
    match x.subscription with
    | none => n.endTask (.consumer c)
    | some id =>
      match n.next x.source id with
      | (n, .waiting) => n
      | (n, d) =>
        let done := !x.collects || d = .ended
        let n := n.modifyConsumer c fun x => { x with results := x.results ++ [d], done }
        if done then n.endTask (.consumer c) else n

/-- What has come for a consumer since somebody looked last, and whether it has stopped. -/
def look (c : Nat) (n : Node) : Node × List (Delivery Item) × Bool :=
  match n.consumers[c]? with
  | none => (n, [], true)
  | some x => (n.modifyConsumer c fun x => { x with results := [] }, x.results, x.done)

/-- Takes the answer and the subscription back from a consumer that has stopped. -/
def join (c : Nat) (n : Node) : Node × Option (Delivery Item × Source × Nat) :=
  match n.consumers[c]? with
  | some ⟨source, some id, _, d :: _, true⟩ =>
    (n.modifyConsumer c fun x => { x with subscription := none }, some (d, source, id))
  | _ => (n, none)

end Node

end NamespaceTopology
