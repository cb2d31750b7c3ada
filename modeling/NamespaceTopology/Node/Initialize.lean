import NamespaceTopology.Node.Follow

set_option autoImplicit false

/-!
Initializing a dynamic registry. Calls on one initializer take turns in the order in which they come.
The one whose turn it is builds the registry, waiting for a first value if it may; each later one gets
the registry that stands. A call that fails leaves nothing behind, so the next one starts afresh.
-/
namespace NamespaceTopology.Node

/-- Ends a call, which passes the turn on. -/
def endAttempt (a i : Nat) (stage : Stage) (n : Node) : Node :=
  ((n.modifyAttempt a fun x => { x with stage }).modifyInitializer i fun x =>
    { x with queue := x.queue.filter fun b => b ≠ a }).endTask (.attempt a)

/-- Ends a call that has failed and lets go of what it followed. -/
def fail (a i : Nat) (remote : Remote) (e : Error) (n : Node) : Node :=
  ((n.closeRemote remote).dropRemote remote).endAttempt a i (.finished (.error e))

/-- Builds the registry and starts its tasks. -/
def build (a i : Nat) (o : DynamicOptions) (remote : Remote) (first : Option (Value × Topology))
    (n : Node) : Node :=
  match n.createInstruments o.exposition o.scope with
  | (n, .error cause) =>
    (n.tell [.error ("dynamic namespace registry could not register metrics: " ++ cause.message)]).fail
      a i remote (.metrics cause)
  | (n, .ok instruments) =>
    let r := n.followers.length
    let f : Follower := ⟨.start o instruments first, remote, o.exposition, false, false, none⟩
    let n := { n with followers := n.followers ++ [f] }
    (((n.addTask (.updates r)).addTask (.samples r)).modifyInitializer i fun x =>
      { x with registry := some r }).endAttempt a i (.finished (.ok r))

/-- Reads the first value and builds the registry from it. Only one that was not to wait for a value
starts without. -/
def conclude (a i : Nat) (o : DynamicOptions) (remote : Remote) (n : Node) : Node :=
  match n.readRemote remote with
  | (n, some v) =>
    match v.topology with
    | .ok t => n.build a i o remote (some (v, t))
    | .error cause =>
      (n.tell [.error ("dynamic namespace registry received invalid initial value: "
        ++ cause.message)]).fail a i remote (.namespaces cause)
  | (n, none) =>
    if o.initTimeout.nanos = 0 then n.build a i o remote none
    else (n.tell [.error "dynamic namespace registry received absent initial value"]).fail
      a i remote (.namespaces .unreadable)

/-- Goes on with the wait for a first value. A signal that has come wins over the deadline. -/
def await (a i : Nat) (o : DynamicOptions) (remote : Remote) (deadline : Nat) (n : Node) : Node :=
  match n.takeSignal remote with
  | (n, .changed) => n.conclude a i o remote
  | (n, .ended) =>
    (n.tell [.warning "namespace registry watch ended during the initial wait"]).conclude a i o remote
  | (n, .waiting) =>
    if deadline ≤ n.nanos then
      let e : Error := .initTimeout o.initTimeout
      (n.tell [.error ("dynamic namespace registry initialization failed after waiting up to "
        ++ o.initTimeout.text ++ ": " ++ e.message)]).fail a i remote e
    else n.modifyAttempt a fun x => { x with stage := .waiting remote deadline }

def takeTurn (a i : Nat) (x : Initializer) (n : Node) : Node :=
  match x.registry with
  | some r => n.endAttempt a i (.finished (.ok r))
  | none =>
    match x.options.validate, x.options.client with
    | .error e, _ => n.endAttempt a i (.finished (.error (.config e)))
    | .ok (), none => n
    | .ok (), some client =>
      match n.follow client x.options.key with
      | .error e => n.endAttempt a i (.finished (.error (.store e)))
      | .ok (n, remote) =>
        if x.options.initTimeout.nanos = 0 then n.conclude a i x.options remote
        else n.await a i x.options remote (dueAfter n.nanos x.options.initTimeout)

/-- Gives a call up. It lets go of what it followed without closing it. -/
def abandon (a i : Nat) (stage : Stage) (n : Node) : Node :=
  let n := match stage with
    | .waiting remote _ => n.dropRemote remote
    | _ => n
  n.endAttempt a i .abandoned

def isFirst (a i : Nat) (n : Node) : Bool :=
  (n.initializers[i]?).any fun x => x.queue.head? = some a

def stepAttempt (a : Nat) (n : Node) : Node :=
  match n.attempts[a]? with
  | none => n.endTask (.attempt a)
  | some ⟨i, stage, true⟩ => n.abandon a i stage
  | some ⟨i, stage, false⟩ =>
    match n.initializers[i]? with
    | none => n.endTask (.attempt a)
    | some x =>
      match stage with
      | .fresh =>
        let n := n.modifyInitializer i fun x => { x with queue := x.queue ++ [a] }
        if x.queue.isEmpty then n.takeTurn a i x
        else n.modifyAttempt a fun x => { x with stage := .queued }
      | .queued => if n.isFirst a i then n.takeTurn a i x else n
      | .waiting remote deadline => n.await a i x.options remote deadline
      | .finished _ => n.endTask (.attempt a)
      | .abandoned => n.endTask (.attempt a)

def call (i : Nat) (n : Node) : Node × Nat :=
  let x : Attempt := ⟨i, .fresh, false⟩
  ({ n with attempts := n.attempts ++ [x] }, n.attempts.length)

def result? (a : Nat) (n : Node) : Option (Except Error Nat) :=
  match (n.attempts[a]?).map Attempt.stage with
  | some (.finished result) => some result
  | _ => none

end NamespaceTopology.Node
