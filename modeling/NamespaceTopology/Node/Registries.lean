import NamespaceTopology.Node.Follow

set_option autoImplicit false

/-!
What users ask of the registries of a node, dynamic and static ones alike.
-/
namespace NamespaceTopology.Node

/-- Starts a watch on a registry and tells the number of its subscription. -/
def watch (source : Source) (n : Node) : Except Error (Node × Nat) :=
  match source with
  | .dynamic r =>
    match n.followers[r]? with
    | some f => f.registry.watch.map fun (registry, id) =>
      (n.modifyFollower r fun f => { f with registry }, id)
    | none => .error (.lifecycle .closed)
  | .static r =>
    match n.statics[r]? with
    | some s => s.watch.map fun (s, id) => ({ n with statics := n.statics.set r s }, id)
    | none => .error (.lifecycle .closed)
  | .hub h =>
    match n.hubs[h]? with
    | some x => x.subscribe.map fun (x, id) => ({ n with hubs := n.hubs.set h x }, id)
    | none => .error .hubClosed

def close (source : Source) (n : Node) : Except Error Node :=
  match source with
  | .dynamic r => n.closeDynamic r
  | .static r =>
    match n.statics[r]? with
    | some s => s.close.map fun s => { n with statics := n.statics.set r s }
    | none => .error (.lifecycle .closed)
  | .hub h =>
    match n.hubs[h]? with
    | some x => x.close.map fun x => { n with hubs := n.hubs.set h x }
    | none => .error .hubClosed

def topology (source : Source) (n : Node) : Topology :=
  match source with
  | .dynamic r => (n.followers[r]?).elim .empty fun f => f.registry.topology
  | .static r => (n.statics[r]?).elim .empty Static.topology
  | .hub _ => .empty

def addInitializer (o : DynamicOptions) (n : Node) : Node × Nat :=
  let x : Initializer := ⟨o, none, []⟩
  ({ n with initializers := n.initializers ++ [x] }, n.initializers.length)

def addStatic (t : Topology) (n : Node) : Node × Nat :=
  ({ n with statics := n.statics ++ [.start t] }, n.statics.length)

def addHub (first : Option String) (n : Node) : Node × Nat :=
  ({ n with hubs := n.hubs ++ [.start first] }, n.hubs.length)

def publish (h : Nat) (s : String) (n : Node) : Except Error Node :=
  match n.hubs[h]? with
  | some x => (x.update s).map fun x => { n with hubs := n.hubs.set h x }
  | none => .error .hubClosed

end NamespaceTopology.Node
