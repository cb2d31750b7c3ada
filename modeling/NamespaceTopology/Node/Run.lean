import NamespaceTopology.Node.Initialize
import NamespaceTopology.Node.Subscribe

set_option autoImplicit false

/-!
Running the tasks of a node. Tasks that are new or can go on stand in line. The first one has turns
until it waits, and then the next. Time passes in whole milliseconds.
-/
namespace NamespaceTopology.Node

def isReady (n : Node) : Task → Bool
  | .updates r => (n.followers[r]?).any fun f =>
    !f.loopDone && (f.registry.closed || n.signal f.remote ≠ .waiting)
  | .samples r => (n.followers[r]?).any fun f =>
    !f.samplerDone && (f.registry.closed || f.nextSample.all fun due => due ≤ n.nanos)
  | .attempt a => (n.attempts[a]?).any fun x =>
    match x.stage with
    | .fresh => true
    | .queued => x.cancelled || n.isFirst a x.initializer
    | .waiting remote deadline =>
      x.cancelled || n.signal remote ≠ .waiting || deadline ≤ n.nanos
    | .finished _ => false
    | .abandoned => false
  | .consumer c => (n.consumers[c]?).any fun x =>
    !x.done && x.subscription.any fun id => n.peek x.source id ≠ .waiting

/-- Puts the tasks that can go on now behind those that are in line already. -/
def refresh (n : Node) : Node :=
  { n with ready := n.ready ++ n.tasks.filter fun t => n.isReady t && !n.ready.contains t }

/-- Takes a task that has had its turn out of the line, unless it can go on at once. -/
def dequeue (t : Task) (n : Node) : Node :=
  { n with ready := n.ready.filter fun u => u ≠ t || n.isReady t }

def turn (t : Task) (n : Node) : Node :=
  refresh <| dequeue t <| match t with
    | .updates r => n.stepUpdates r
    | .samples r => n.stepSamples r
    | .attempt a => n.stepAttempt a
    | .consumer c => n.stepConsumer c

/-- Turns of ready tasks, so many at most. -/
def turns : Nat → Node → Node
  | 0, n => n
  | k + 1, n =>
    match n.ready with
    | [] => n
    | t :: _ => turns k (n.turn t)

/-- More turns than the tasks can take before all of them wait: a signal or a publication is one turn
for each of those it reaches, and a sampler has one for each sample of a period that is not too late. -/
def enough (n : Node) : Nat :=
  let tasks := n.tasks.length + 2 * n.attempts.length + 1
  n.followers.foldl (fun total f => total + lateness.nanos / f.registry.reportInterval.nanos + 2)
    (tasks * (n.feed.signals + 4 * tasks + 8))

/-- Runs all tasks until every one waits. -/
def settle (n : Node) : Node :=
  let n := n.refresh
  turns n.enough n

/-- Lets so many milliseconds pass, running the tasks after each. -/
def advance : Nat → Node → Node
  | 0, n => n
  | k + 1, n => advance k { n with now := n.now + 1 }.settle

def timers (n : Node) : List Nat :=
  n.attempts.filterMap (fun x => match x.stage with
    | .waiting _ deadline => some deadline
    | _ => none) ++
  n.followers.filterMap fun f => if f.samplerDone then none else f.nextSample

/-- The first whole millisecond that is not before a time. -/
def milliseconds (time : Nat) : Nat := (time + 999999) / 1000000

/-- Runs a call, so many rounds at most. In a round the call goes first, if it can go on, and then the
tasks until every one waits. Time passes to the next timer when the call still cannot go on. -/
def drive (a : Nat) : Nat → Node → Node
  | 0, n => n
  | k + 1, n =>
    let n := if n.isReady (.attempt a) then n.turn (.attempt a) else n
    if (n.result? a).isSome then n
    else
      let n := n.settle
      if n.isReady (.attempt a) then drive a k n
      else match (n.timers.map milliseconds).min? with
        | none => n
        | some time => drive a k { n with now := max time (n.now + 1) }.refresh

/-- The longest time in milliseconds that calls can wait one after another. -/
def patience (n : Node) : Nat :=
  n.attempts.foldl (fun total x => total + milliseconds
    ((n.initializers[x.initializer]?).elim 0 fun i => dueAfter 0 i.options.initTimeout)) 0

def init (i : Nat) (n : Node) : Node × Option (Except Error Nat) :=
  let (n, a) := n.call i
  let n := drive a (n.patience + 4) n
  (n, n.result? a)

def spawnInit (i : Nat) (n : Node) : Node × Nat :=
  let (n, a) := n.call i
  (n.addTask (.attempt a), a)

def cancel (a : Nat) (n : Node) : Node := n.modifyAttempt a fun x => { x with cancelled := true }

end NamespaceTopology.Node
