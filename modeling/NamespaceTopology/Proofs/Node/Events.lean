import NamespaceTopology.Node.Registries
import NamespaceTopology.Node.Release

set_option autoImplicit false

/-!
Everything that can happen to a node, as events: what its users and the outside world do, and turns of
its tasks in any order. A run is any series of events. The scheduler of a node, which lets time pass and
drives a call to its end, only picks one of them.
-/
namespace NamespaceTopology

inductive Store.Event where
  | set (key : String) (data : List UInt8)
  | setWithVersion (key : String) (version : Int64) (data : List UInt8)
  | delete (key : String)
  | closeKey (key : String)
  | watch (key : String)
  | look (w : Nat)
  | closeWatch (w : Nat)
  | dropWatch (w : Nat)
  | wait (w : Nat)
  | resume (waiter : Nat)
  | leave (waiter : Nat)

def Store.occur (s : Store) : Store.Event → Store
  | .set key data => (s.set key data).1
  | .setWithVersion key version data => s.setWithVersion key version data
  | .delete key => s.delete key
  | .closeKey key => s.closeKey key
  | .watch key => (s.watch key).1
  | .look w => (s.look w).1
  | .closeWatch w => s.closeWatch w
  | .dropWatch w => s.dropWatch w
  | .wait w => (s.wait w).1
  | .resume waiter => (s.resume waiter).1
  | .leave waiter => s.leave waiter

inductive Feed.Event where
  | access (a : Access)
  | push (content : Option Value) (signals : Nat)
  | finish

def Feed.occur (f : Feed) : Feed.Event → Feed
  | .access a => { f with access := a }
  | .push content signals => f.push content signals
  | .finish => { f with ended := true }

namespace Node

inductive Event where
  | store (e : Store.Event)
  | feed (e : Feed.Event)
  | closeOnRead (r : Nat)
  | addMeter (exposition scope : String)
  | count (m : Nat) (updates : UInt64)
  | report (m : Nat) (version : Int)
  | withdraw (m : Nat)
  /-- Somebody takes the metrics of a registry out of its exposition. The registry goes on. -/
  | withdrawDynamic (r : Nat)
  | register (exposition : String) (c : Collector)
  | unregister (exposition : String) (c : Collector)
  | addHub (first : Option String)
  | publish (h : Nat) (s : String)
  | addStatic (t : Topology)
  | addInitializer (o : DynamicOptions)
  | watch (source : Source)
  | close (source : Source)
  | next (source : Source) (id : Nat)
  | unsubscribe (source : Source) (id : Nat)
  | consume (source : Source) (id : Nat) (collects : Bool)
  | look (c : Nat)
  | join (c : Nat)
  | call (i : Nat)
  | spawnInit (i : Nat)
  | cancel (a : Nat)
  | readNotices
  | release (h : Handles)
  | refresh
  | turn (t : Task)
  | pass (milliseconds : Nat)
  /-- The update loop of a registry is signalled and reads some content, whatever its remote side. -/
  | wake (r : Nat) (content : Option Value)
  /-- The update loop of a registry learns that no signal will come any more. -/
  | streamEnd (r : Nat)

def wake (r : Nat) (content : Option Value) (n : Node) : Node :=
  match n.followers[r]? with
  | none => n
  | some f =>
    let (registry, notices) := f.registry.receive content
    (n.modifyFollower r fun f => { f with registry }).tell notices

def occur (n : Node) : Event → Node
  | .store e => { n with store := n.store.occur e }
  | .feed e => { n with feed := n.feed.occur e }
  | .closeOnRead r => { n with closeOnRead := some r }
  | .addMeter exposition scope => (n.addMeter exposition scope).1
  | .count m updates => n.modifyMeter m fun i => i.count updates
  | .report m version => n.modifyMeter m fun i => i.report version
  | .withdraw m => n.withdraw m
  | .withdrawDynamic r => n.withdrawDynamic r
  | .register exposition c => match n.register exposition c with
    | .ok n => n
    | .error _ => n
  | .unregister exposition c => (n.unregister exposition c).1
  | .addHub first => (n.addHub first).1
  | .publish h s => match n.publish h s with
    | .ok n => n
    | .error _ => n
  | .addStatic t => (n.addStatic t).1
  | .addInitializer o => (n.addInitializer o).1
  | .watch source => match n.watch source with
    | .ok (n, _) => n
    | .error _ => n
  | .close source => match n.close source with
    | .ok n => n
    | .error _ => n
  | .next source id => (n.next source id).1
  | .unsubscribe source id => n.unsubscribe source id
  | .consume source id collects => (n.consume source id collects).1
  | .look c => (n.look c).1
  | .join c => (n.join c).1
  | .call i => (n.call i).1
  | .spawnInit i => (n.spawnInit i).1
  | .cancel a => n.cancel a
  | .readNotices => { n with notices := [] }
  | .release h => n.release h
  | .refresh => n.refresh
  | .turn t => n.turn t
  | .pass milliseconds => { n with now := n.now + milliseconds }
  | .wake r content => n.wake r content
  | .streamEnd r => (n.ensureClosed r).endLoop r

def run (n : Node) (es : List Event) : Node := es.foldl occur n

theorem run_append (n : Node) (es es' : List Event) : n.run (es ++ es') = (n.run es).run es' :=
  List.foldl_append

/-! ### A small run -/

def smallDocument (letter : UInt8) : List UInt8 :=
  [10, 19, 10, 1, letter, 18, 14, 50, 8, 8, 2, 16, 2, 24, 1, 32, 1, 66, 2, 16, 2]

def smallRun : List Event :=
  [.store (.set "namespaces" (smallDocument 97)),
   .addInitializer ⟨some .store, "namespaces", Span.zero, "app", Span.ofSeconds 60, "main"⟩,
   .call 0, .turn (.attempt 0)]

/-- The registry gets another document, and then nothing. -/
def smallUpdates : List Event :=
  [.store (.set "namespaces" (smallDocument 98)), .turn (.updates 0), .wake 0 none]

def smallWatching : List Event :=
  [.next (.dynamic 0) 1] ++ smallUpdates ++ [.next (.dynamic 0) 1, .next (.dynamic 0) 1]

def smallRest : List Event :=
  smallRun ++ [.turn (.updates 0), .store (.setWithVersion "namespaces" 1 (smallDocument 98)),
    .turn (.updates 0)]

/-! ### The scheduler -/

def Event.isScheduled : Event → Bool
  | .call _ | .refresh | .turn _ | .pass _ => true
  | _ => false

/-- A run that the scheduler makes by itself. -/
def Runs (n n' : Node) : Prop := ∃ es, (∀ e ∈ es, e.isScheduled = true) ∧ n.run es = n'

theorem Runs.refl (n : Node) : Runs n n := ⟨[], by simp, rfl⟩

theorem Runs.event {e : Event} (he : e.isScheduled = true) (n : Node) : Runs n (n.occur e) :=
  ⟨[e], by simpa using he, rfl⟩

theorem Runs.trans {n m k : Node} (h : Runs n m) (h' : Runs m k) : Runs n k := by
  obtain ⟨es, hes, rfl⟩ := h
  obtain ⟨es', hes', rfl⟩ := h'
  refine ⟨es ++ es', ?_, run_append n es es'⟩
  intro e he
  exact (List.mem_append.mp he).elim (hes e) (hes' e)

theorem runs_turns (k : Nat) (n : Node) : Runs n (turns k n) := by
  induction k generalizing n with
  | zero => exact .refl n
  | succ k ih =>
    unfold turns
    split
    · exact .refl n
    next t _ _ => exact (Runs.event (e := .turn t) rfl n).trans (ih (n.turn t))

theorem runs_settle (n : Node) : Runs n n.settle :=
  (Runs.event (e := .refresh) rfl n).trans (runs_turns _ _)

theorem runs_advance (k : Nat) (n : Node) : Runs n (advance k n) := by
  induction k generalizing n with
  | zero => exact .refl n
  | succ k ih =>
    have hpass : Runs n { n with now := n.now + 1 } := Runs.event (e := .pass 1) rfl n
    exact (hpass.trans (runs_settle _)).trans (ih _)

theorem runs_drive (a k : Nat) (n : Node) : Runs n (drive a k n) := by
  induction k generalizing n with
  | zero => exact .refl n
  | succ k ih =>
    have hturn : Runs n (if n.isReady (.attempt a) then n.turn (.attempt a) else n) := by
      split
      · exact Runs.event (e := .turn (.attempt a)) rfl n
      · exact .refl n
    simp only [drive]
    refine hturn.trans ?_
    generalize (if n.isReady (.attempt a) then n.turn (.attempt a) else n) = m
    split
    · exact .refl m
    · refine (runs_settle m).trans ?_
      generalize m.settle = m
      split
      · exact ih m
      · split
        · exact .refl m
        next time _ =>
          -- The clock jumps, by an event that lets the missing time pass.
          have hjump : Runs m { m with now := max time (m.now + 1) } := by
            have hle : m.now + (max time (m.now + 1) - m.now) = max time (m.now + 1) := by omega
            have h := Runs.event (e := .pass (max time (m.now + 1) - m.now)) rfl m
            simpa only [occur, hle] using h
          exact (hjump.trans (Runs.event (e := .refresh) rfl _)).trans (ih _)

/-- A call that is made and awaited is one of the runs. -/
theorem runs_init (i : Nat) (n : Node) : Runs n (n.init i).1 :=
  (Runs.event (e := .call i) rfl n).trans (runs_drive _ _ _)

end Node

end NamespaceTopology
