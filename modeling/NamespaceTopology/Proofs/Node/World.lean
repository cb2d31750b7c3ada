import NamespaceTopology.Proofs.Node.Attachment
import NamespaceTopology.Proofs.Node.Turns

set_option autoImplicit false

/-!
What calls do to the world, which is everything of a node but the calls themselves. It depends on what a
call has been asked for alone, not on whose call it is, on which initializer, and who else has called.
-/
namespace NamespaceTopology.Node

/-! ### The world of calls -/

/-- Everything of a node but its calls, their initializers and the tasks. -/
structure World where
  now : Nat
  store : Store
  feed : Feed
  closeOnRead : Option Nat
  expositions : List (String × Exposition)
  meters : List Meter
  nextOwner : Nat
  hubs : List (Hub String)
  statics : List Static
  followers : List Follower
  consumers : List Consumer
  notices : List Notice

def world (n : Node) : World :=
  ⟨n.now, n.store, n.feed, n.closeOnRead, n.expositions, n.meters, n.nextOwner, n.hubs, n.statics,
    n.followers, n.consumers, n.notices⟩

/-- The world of a node with the calls and tasks of another one. -/
def under (n m : Node) : Node :=
  { n with
    initializers := m.initializers
    attempts := m.attempts
    tasks := m.tasks
    ready := m.ready }

theorem world_under (n m : Node) : (n.under m).world = n.world := rfl

theorem under_of_world_eq {n m : Node} (h : m.world = n.world) : n.under m = m := by
  obtain ⟨⟩ := n
  obtain ⟨⟩ := m
  simp only [world, World.mk.injEq] at h
  obtain ⟨rfl, rfl, rfl, rfl, rfl, rfl, rfl, rfl, rfl, rfl, rfl, rfl⟩ := h
  rfl

theorem world_tell {n m : Node} (h : m.world = n.world) (notices : List Notice) :
    (m.tell notices).world = (n.tell notices).world := by
  rw [← under_of_world_eq h]
  rfl

theorem world_endAttempt (a i : Nat) (stage : Stage) (n : Node) :
    (n.endAttempt a i stage).world = n.world := rfl

theorem world_fail (a i : Nat) (remote : Remote) (e : Error) (n : Node) :
    (n.fail a i remote e).world = ((n.closeRemote remote).dropRemote remote).world :=
  world_endAttempt a i _ _

theorem world_abandon {stage : Stage} (h : stage.remote? = none) (a i : Nat) (n : Node) :
    (n.abandon a i stage).world = n.world := by
  cases stage with
  | waiting remote deadline => cases h
  | fresh | queued | finished _ | abandoned => exact world_endAttempt a i .abandoned n

theorem closeRemote_under (remote : Remote) (n m : Node) :
    (n.under m).closeRemote remote = (n.closeRemote remote).under m := by
  cases remote <;> rfl

theorem dropRemote_under (remote : Remote) (n m : Node) :
    (n.under m).dropRemote remote = (n.dropRemote remote).under m := by
  cases remote <;> rfl

theorem takeSignal_under (remote : Remote) (n m : Node) :
    (n.under m).takeSignal remote = ((n.takeSignal remote).1.under m, (n.takeSignal remote).2) := by
  cases remote <;> rfl

theorem closeDynamic_under (r : Nat) (n m : Node) :
    (n.under m).closeDynamic r = (n.closeDynamic r).map fun k => k.under m := by
  have hfollowers : (n.under m).followers = n.followers := rfl
  unfold closeDynamic
  rw [hfollowers]
  cases n.followers[r]? with
  | none => rfl
  | some f =>
    have hexposition : (n.under m).exposition f.exposition = n.exposition f.exposition := rfl
    simp only [hexposition]
    cases f.registry.close (n.exposition f.exposition) with
    | error e => rfl
    | ok p =>
      obtain ⟨d, e, notices⟩ := p
      exact congrArg Except.ok (closeRemote_under f.remote (((n.modifyFollower r fun f =>
        { f with registry := d }).setExposition f.exposition e).tell notices) m)

theorem ensureClosed_under (r : Nat) (n m : Node) :
    (n.under m).ensureClosed r = (n.ensureClosed r).under m := by
  unfold ensureClosed
  rw [closeDynamic_under]
  cases n.closeDynamic r <;> rfl

theorem readRemote_under (remote : Remote) (n m : Node) :
    (n.under m).readRemote remote = ((n.readRemote remote).1.under m, (n.readRemote remote).2) := by
  cases remote with
  | watch w => rfl
  | feed =>
    have hdue : (n.under m).closeOnRead = n.closeOnRead := rfl
    simp only [readRemote, hdue]
    cases n.closeOnRead with
    | none => rfl
    | some r =>
      have hclosed := ensureClosed_under r { n with
        feed := { n.feed with reads := n.feed.reads + 1 }, closeOnRead := none } m
      exact congrArg (fun k : Node => (k, k.feed.content)) hclosed

theorem follow_under (client : Client) (key : String) (n m : Node) :
    (n.under m).follow client key = (n.follow client key).map fun p => (p.1.under m, p.2) := by
  cases client with
  | store => rfl
  | service =>
    have hfeed : (n.under m).feed = n.feed := rfl
    simp only [follow, hfeed]
    cases n.feed.watch key <;> rfl

/-! ### Calls that go alike -/

def stageAt (a : Nat) (n : Node) : Option Stage := (n.attempts[a]?).map Attempt.stage

/-- One call has come as far in one node as another call in another node, and has made the same of the
world. -/
structure Alike (a : Nat) (n : Node) (b : Nat) (m : Node) : Prop where
  world : m.world = n.world
  stage : m.stageAt b = n.stageAt a

theorem world_occur_attempt (a : Nat) (n : Node) :
    (n.occur (.turn (.attempt a))).world = (n.stepAttempt a).world := by
  have hline (k : Node) : (k.dequeue (.attempt a)).refresh.world = k.world := rfl
  exact hline (n.stepAttempt a)

theorem attempts_occur_attempt (a : Nat) (n : Node) :
    (n.occur (.turn (.attempt a))).attempts = (n.stepAttempt a).attempts := by
  have hline (k : Node) : (k.dequeue (.attempt a)).refresh.attempts = k.attempts := rfl
  exact hline (n.stepAttempt a)

theorem stageAt_of_lines {n m : Node} {a i : Nat} {stage : Stage} (h : m.lines = n.lines.leave a i stage)
    (ha : a < n.attempts.length) : m.stageAt a = some stage := by
  have hattempts : m.attempts = n.attempts.modify a fun x => { x with stage } :=
    congrArg Lines.attempts h
  simp [stageAt, hattempts, ha]

variable {a b i j : Nat} {n m : Node}

theorem lt_attempts_of_lines {k : Node} (h : k.lines = n.lines) (ha : a < n.attempts.length) :
    a < k.attempts.length := by
  have hattempts : k.attempts = n.attempts := congrArg Lines.attempts h
  rwa [hattempts]

theorem alike_endAttempt (h : m.world = n.world) (ha : a < n.attempts.length)
    (hb : b < m.attempts.length) (stage : Stage) :
    Alike a (n.endAttempt a i stage) b (m.endAttempt b j stage) where
  world := h
  stage := (stageAt_of_lines rfl hb).trans (stageAt_of_lines rfl ha).symm

theorem alike_fail (h : m.world = n.world) (ha : a < n.attempts.length) (hb : b < m.attempts.length)
    (remote : Remote) (e : Error) : Alike a (n.fail a i remote e) b (m.fail b j remote e) where
  world := by
    rw [world_fail, world_fail, ← under_of_world_eq h, closeRemote_under, dropRemote_under,
      world_under]
  stage := (stageAt_of_lines (lines_fail b j remote e m) hb).trans
    (stageAt_of_lines (lines_fail a i remote e n) ha).symm

theorem alike_abandon (h : m.world = n.world) (ha : a < n.attempts.length) (hb : b < m.attempts.length)
    (i j : Nat) (stage : Stage) : Alike a (n.abandon a i stage) b (m.abandon b j stage) where
  world := by
    cases stage with
    | waiting remote deadline =>
      have hdrop : (m.dropRemote remote).world = (n.dropRemote remote).world := by
        rw [← under_of_world_eq h, dropRemote_under, world_under]
      exact (world_endAttempt b j _ _).trans (hdrop.trans (world_endAttempt a i _ _).symm)
    | fresh | queued | finished _ | abandoned =>
      rw [world_abandon rfl, world_abandon rfl, h]
  stage := (stageAt_of_lines (lines_abandon b j stage m) hb).trans
    (stageAt_of_lines (lines_abandon a i stage n) ha).symm

theorem alike_build (h : m.world = n.world) (ha : a < n.attempts.length) (hb : b < m.attempts.length)
    (o : DynamicOptions) (remote : Remote) (first : Option (Value × Topology)) :
    Alike a (n.build a i o remote first) b (m.build b j o remote first) := by
  have hmade : m.createInstruments o.exposition o.scope =
      ((n.createInstruments o.exposition o.scope).1.under m,
        (n.createInstruments o.exposition o.scope).2) := by
    rw [← under_of_world_eq h]
    rfl
  have hlines : (n.createInstruments o.exposition o.scope).1.lines = n.lines := rfl
  unfold build
  rw [hmade]
  rcases hk : n.createInstruments o.exposition o.scope with ⟨k, made⟩
  rw [hk] at hlines
  have ha := lt_attempts_of_lines hlines ha
  have hb : b < (k.under m).attempts.length := hb
  cases made with
  | error cause => exact alike_fail (world_tell (world_under k m) _) ha hb remote _
  | ok instruments =>
    let r := k.followers.length
    let f : Follower := ⟨.start o instruments first, remote, o.exposition, false, false, none⟩
    let built (i : Nat) (k : Node) : Node := (({ k with followers := k.followers ++ [f] }.addTask
      (.updates r)).addTask (.samples r)).modifyInitializer i fun x => { x with registry := some r }
    have hbuilt : (built j (k.under m)).world = (built i k).world := rfl
    exact alike_endAttempt hbuilt ha hb (.finished (.ok r))

theorem alike_conclude (h : m.world = n.world) (ha : a < n.attempts.length)
    (hb : b < m.attempts.length) (o : DynamicOptions) (remote : Remote) :
    Alike a (n.conclude a i o remote) b (m.conclude b j o remote) := by
  have hread : m.readRemote remote = ((n.readRemote remote).1.under m, (n.readRemote remote).2) := by
    rw [← readRemote_under, under_of_world_eq h]
  have hlines := lines_readRemote remote n
  unfold conclude
  rw [hread]
  rcases hk : n.readRemote remote with ⟨k, content⟩
  rw [hk] at hlines
  have ha := lt_attempts_of_lines hlines ha
  have hb : b < (k.under m).attempts.length := hb
  cases content with
  | none =>
    simp only
    split
    · exact alike_build (world_under k m) ha hb o remote none
    · exact alike_fail (world_tell (world_under k m) _) ha hb remote _
  | some v =>
    simp only
    cases v.topology with
    | ok t => exact alike_build (world_under k m) ha hb o remote _
    | error cause => exact alike_fail (world_tell (world_under k m) _) ha hb remote _

theorem alike_await (h : m.world = n.world) (ha : a < n.attempts.length) (hb : b < m.attempts.length)
    (o : DynamicOptions) (remote : Remote) (deadline : Nat) :
    Alike a (n.await a i o remote deadline) b (m.await b j o remote deadline) := by
  have htake : m.takeSignal remote = ((n.takeSignal remote).1.under m, (n.takeSignal remote).2) := by
    rw [← takeSignal_under, under_of_world_eq h]
  have hlines := lines_takeSignal remote n
  unfold await
  rw [htake]
  rcases hk : n.takeSignal remote with ⟨k, signal⟩
  rw [hk] at hlines
  have ha := lt_attempts_of_lines hlines ha
  have hb : b < (k.under m).attempts.length := hb
  cases signal with
  | changed => exact alike_conclude (world_under k m) ha hb o remote
  | ended => exact alike_conclude (world_tell (world_under k m) _) ha hb o remote
  | waiting =>
    have hnanos : (k.under m).nanos = k.nanos := rfl
    simp only [hnanos]
    split
    · exact alike_fail (world_tell (world_under k m) _) ha hb remote _
    · refine ⟨world_under k m, ?_⟩
      simp [stageAt, modifyAttempt, ha, hb]

/-- What a call does whose initializer has no registry depends on the options alone, not on whose call it
is and what there has been before. -/
theorem alike_takeTurn (h : m.world = n.world) (ha : a < n.attempts.length)
    (hb : b < m.attempts.length) {x y : Initializer} (hoptions : y.options = x.options)
    (hx : x.registry = none) (hy : y.registry = none) :
    Alike a (n.takeTurn a i x) b (m.takeTurn b j y) := by
  unfold takeTurn
  rw [hx, hy, hoptions]
  simp only
  split
  · exact alike_endAttempt h ha hb _
  next hvalid hnone =>
    obtain ⟨client, hclient⟩ := exists_client hvalid
    rw [hclient] at hnone
    cases hnone
  next client _ _ =>
    have hfollow : m.follow client x.options.key =
        (n.follow client x.options.key).map fun p => (p.1.under m, p.2) := by
      rw [← follow_under, under_of_world_eq h]
    rw [hfollow]
    cases hf : n.follow client x.options.key with
    | error e => exact alike_endAttempt h ha hb _
    | ok p =>
      obtain ⟨k, remote⟩ := p
      have ha := lt_attempts_of_lines (lines_follow hf) ha
      have hb : b < (k.under m).attempts.length := hb
      have hnanos : (k.under m).nanos = k.nanos := rfl
      simp only [Except.map, hnanos]
      split
      · exact alike_conclude (world_under k m) ha hb x.options remote
      · exact alike_await (world_under k m) ha hb x.options remote _

end NamespaceTopology.Node
