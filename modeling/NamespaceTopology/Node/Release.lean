import NamespaceTopology.Node.Run

set_option autoImplicit false

/-!
What a node still needs. An object lives while a user has it, or while a task or another object that
lives needs it.
-/
namespace NamespaceTopology

/-- What the users of a node have. -/
structure Handles where
  watches : List Nat
  registries : List Nat
  initializers : List Nat
  /-- Calls whose answers may still be taken. -/
  attempts : List Nat
  /-- Consumers whose subscriptions may still be taken back. -/
  consumers : List Nat

namespace Node

def runs (x : Attempt) : Bool :=
  match x.stage with
  | .finished _ => false
  | .abandoned => false
  | _ => true

def hasInitializer (h : Handles) (i : Nat) (n : Node) : Bool :=
  h.initializers.contains i || n.attempts.any fun x => runs x && x.initializer = i

def hasRegistry (h : Handles) (r : Nat) (n : Node) : Bool :=
  h.registries.contains r || n.closeOnRead = some r ||
  ((n.followers[r]?).any fun f => !(f.loopDone && f.samplerDone)) ||
  (n.initializers.zipIdx.any fun (x, i) => x.registry = some r && n.hasInitializer h i) ||
  h.attempts.any fun a => match n.result? a with
    | some (.ok r') => r' = r
    | _ => false

def hasWatch (h : Handles) (w : Nat) (n : Node) : Bool :=
  h.watches.contains w || !(n.store.queueOf w).isEmpty ||
  (n.followers.zipIdx.any fun (f, r) => f.remote = .watch w && n.hasRegistry h r) ||
  n.attempts.any fun x => match x.stage with
    | .waiting remote _ => remote = .watch w
    | _ => false

/-- Lets go of the watches and subscriptions that nobody needs any more. -/
def release (h : Handles) (n : Node) : Node :=
  let lost := (List.range n.store.watches.length).filter fun w => !n.hasWatch h w
  let n := { n with store := lost.foldl (fun s w => s.dropWatch w) n.store }
  n.consumers.zipIdx.foldl (fun n (x, c) =>
    match x.subscription with
    | some id => if x.done && !h.consumers.contains c then n.unsubscribe x.source id else n
    | none => n) n

end Node

end NamespaceTopology
