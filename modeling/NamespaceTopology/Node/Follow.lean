import NamespaceTopology.Node.Basic

set_option autoImplicit false

/-!
Following a remote value: opening, watching and reading it, and the two tasks of a dynamic registry.
-/
namespace NamespaceTopology.Node

def follow (client : Client) (key : String) (n : Node) : Except StoreError (Node × Remote) :=
  match client with
  | .store =>
    let (store, w) := n.store.watch key
    .ok ({ n with store }, .watch w)
  | .service => (n.feed.watch key).map fun feed => ({ n with feed }, .feed)

def signal (remote : Remote) (n : Node) : Signal :=
  match remote with
  | .watch w => n.store.peek w
  | .feed => n.feed.peek

def takeSignal (remote : Remote) (n : Node) : Node × Signal :=
  match remote with
  | .watch w =>
    let (store, signal) := n.store.look w
    ({ n with store }, signal)
  | .feed =>
    let (feed, signal) := n.feed.look
    ({ n with feed }, signal)

def closeRemote (remote : Remote) (n : Node) : Node :=
  match remote with
  | .watch w => { n with store := n.store.closeWatch w }
  | .feed => { n with feed := n.feed.close }

def dropRemote (remote : Remote) (n : Node) : Node :=
  match remote with
  | .watch w => { n with store := n.store.dropWatch w }
  | .feed => n

/-- Closes a dynamic registry with everything that it follows and shows. -/
def closeDynamic (r : Nat) (n : Node) : Except Error Node :=
  match n.followers[r]? with
  | none => .error (.lifecycle .closed)
  | some f => do
    let (registry, e, notices) ← f.registry.close (n.exposition f.exposition)
    return ((n.modifyFollower r fun f => { f with registry }).setExposition f.exposition e).tell notices
      |>.closeRemote f.remote

/-- Takes the metrics of a dynamic registry back, and nothing else of it. -/
def withdrawDynamic (r : Nat) (n : Node) : Node :=
  match n.followers[r]? with
  | none => n
  | some f =>
    let (registry, e, notices) := f.registry.withdraw (n.exposition f.exposition)
    ((n.modifyFollower r fun f => { f with registry }).setExposition f.exposition e).tell notices

def ensureClosed (r : Nat) (n : Node) : Node :=
  match n.closeDynamic r with
  | .ok n => n
  | .error _ => n

/-- Reads the latest content. A registry may be due to be closed while the feed is read. -/
def readRemote (remote : Remote) (n : Node) : Node × Option Value :=
  match remote with
  | .watch w => (n, n.store.contentOf w)
  | .feed =>
    let n := { n with feed := { n.feed with reads := n.feed.reads + 1 } }
    let n := match n.closeOnRead with
      | some r => { n with closeOnRead := none }.ensureClosed r
      | none => n
    (n, n.feed.content)

def endLoop (r : Nat) (n : Node) : Node :=
  (n.modifyFollower r fun f => { f with loopDone := true }).endTask (.updates r)

/-- One turn of the update loop. The end of the stream closes the registry. -/
def stepUpdates (r : Nat) (n : Node) : Node :=
  match n.followers[r]? with
  | none => n.endTask (.updates r)
  | some f =>
    if f.registry.closed then n.endLoop r
    else match n.takeSignal f.remote with
      | (n, .waiting) => n
      | (n, .ended) => (n.ensureClosed r).endLoop r
      | (n, .changed) =>
        let (n, content) := n.readRemote f.remote
        match n.followers[r]? with
        | none => n
        | some f =>
          let (registry, notices) := f.registry.receive content
          (n.modifyFollower r fun f => { f with registry }).tell notices

/-- When a span that starts at a time is over. The clock does not reach beyond `2 ^ 63` seconds, and
thirty years stand for so long a span. -/
def dueAfter (time : Nat) (span : Span) : Nat :=
  if span.nanos < (Span.ofSeconds 9223372036854775808).nanos then time + span.nanos
  else time + (Span.ofSeconds (30 * 365 * 86400)).nanos

/-- How late a sample may be without moving those behind it. -/
def lateness : Span := .ofMillis 5

/-- When the sample after one that was due at a time and is taken now is due. One that comes too late
puts off those behind it, so that none is ever made up for. -/
def nextDue (due now : Nat) (period : Span) : Nat :=
  dueAfter (if due + lateness.nanos < now then now else due) period

def stepSamples (r : Nat) (n : Node) : Node :=
  match n.followers[r]? with
  | none => n.endTask (.samples r)
  | some f =>
    if f.registry.closed then
      (n.modifyFollower r fun f => { f with samplerDone := true }).endTask (.samples r)
    else
      let due := f.nextSample.getD n.nanos
      if due ≤ n.nanos then
        n.modifyFollower r fun f => { f with
          registry := f.registry.sample
          nextSample := some (nextDue due n.nanos f.registry.reportInterval) }
      else n

end NamespaceTopology.Node
