import NamespaceTopology.Proofs.Metrics.Refusals
import NamespaceTopology.Proofs.Node.Contents
import NamespaceTopology.Proofs.Node.Initialization

set_option autoImplicit false

/-!
A call that fails leaves nothing behind. Wherever it fails, every one of its turns has left alone what keys
hold, what others watch, what is exported and which tasks there are; it has let go of its own watch, and
its initializer is as empty as before.
-/
namespace NamespaceTopology.Node

variable {a i : Nat} {n m k : Node} {remote : Remote}

/-! ### Watches of others -/

/-- A node in which a call has let go of what it follows. -/
def without (a : Nat) (n : Node) : Node :=
  match n.stageAt a with
  | some (.waiting remote _) => n.dropRemote remote
  | _ => n

theorem without_of_waiting {deadline : Nat} (h : n.stageAt a = some (.waiting remote deadline)) :
    n.without a = n.dropRemote remote := by
  rw [without, h]

theorem without_of_stage {stage : Stage} (h : n.stageAt a = some stage) (hstage : stage.remote? = none) :
    n.without a = n := by
  rw [without, h]
  cases stage with
  | waiting remote deadline => cases hstage
  | fresh | queued | finished _ | abandoned => rfl

theorem store_without_congr (hstore : m.store = n.store) (hattempts : m.attempts = n.attempts) :
    (m.without a).store = (n.without a).store := by
  unfold without stageAt
  rw [hattempts]
  split
  next remote _ _ => cases remote <;> simp [dropRemote, hstore]
  next => exact hstore

theorem stageAt_of_attempt {x : Attempt} (hx : n.attempts[a]? = some x) :
    n.stageAt a = some x.stage := by
  rw [stageAt, hx]
  rfl

theorem Reaches.remote?_eq_none {x : Attempt} {y : Initializer} (h : n.Reaches a x y m) :
    x.stage.remote? = none := by
  cases h with
  | fresh hstage _ | queued hstage _ =>
    rw [hstage]
    rfl

theorem Reaches.tasks {x : Attempt} {y : Initializer} (h : n.Reaches a x y m) : m.tasks = n.tasks := by
  cases h <;> rfl

def footing (n : Node) : List (String × Nat) × List (Nat × Bool) := (n.store.keys, n.store.seats)

theorem watcherCount_of_footing (h : m.footing = n.footing) (key : String) :
    m.store.watcherCount key = n.store.watcherCount key :=
  Store.watcherCount_congr (Prod.mk.inj h) key

theorem footing_dropRemote (remote : Remote) (n : Node) : (n.dropRemote remote).footing =
    match remote with
    | .watch w => (n.footing.1, n.footing.2.modify w fun p => (p.1, true))
    | .feed => n.footing := by
  cases remote with
  | feed => rfl
  | watch w => exact congrArg (Prod.mk n.store.keys) (Store.seats_dropWatch w n.store)

theorem footing_dropRemote_congr (h : m.footing = n.footing) (remote : Remote) :
    (m.dropRemote remote).footing = (n.dropRemote remote).footing := by
  rw [footing_dropRemote, footing_dropRemote, h]

theorem footing_closeRemote (remote : Remote) (n : Node) :
    (n.closeRemote remote).footing = n.footing := by
  cases remote with
  | feed => rfl
  | watch w => exact congrArg (Prod.mk n.store.keys) (Store.seats_closeWatch w n.store)

theorem footing_takeSignal (remote : Remote) (n : Node) :
    (n.takeSignal remote).1.footing = n.footing := by
  cases remote with
  | feed => rfl
  | watch w => exact Prod.ext (Store.cells_look w n.store).1 (Store.seats_look w n.store)

theorem footing_ensureClosed (r : Nat) (n : Node) : (n.ensureClosed r).footing = n.footing := by
  unfold ensureClosed
  split
  next m hm =>
    obtain ⟨f, d, e, notices, _, _, rfl⟩ := closeDynamic_eq_ok hm
    exact footing_closeRemote f.remote _
  next => rfl

theorem footing_readRemote (remote : Remote) (n : Node) :
    (n.readRemote remote).1.footing = n.footing := by
  have hstep := read_step remote n
  generalize (n.readRemote remote).1 = m at hstep ⊢
  cases hstep with
  | watch | feed _ => rfl
  | closes _ => exact footing_ensureClosed _ _

/-! ### What is exported -/

def SameExports (n m : Node) : Prop :=
  ∀ name c, (m.exposition name).Shows c ↔ (n.exposition name).Shows c

theorem SameExports.trans (h : SameExports n m) (h' : SameExports m k) : SameExports n k :=
  fun name c => (h' name c).trans (h name c)

theorem SameExports.of_expositions (h : m.expositions = n.expositions) : SameExports n m := by
  intro name c
  rw [exposition_congr h]

theorem sameExports_createInstruments {exposition scope : String} {cause : MetricsError}
    (h : (n.createInstruments exposition scope).2 = .error cause) :
    SameExports n (n.createInstruments exposition scope).1 := by
  intro name c
  change ((n.setExposition exposition (Instruments.create n.nextOwner scope
    (n.exposition exposition)).exposition).exposition name).Shows c ↔ _
  rw [exposition_setExposition]
  split
  next hname =>
    rw [hname]
    exact Instruments.shows_create_of_error h c
  next => exact Iff.rfl

def readingClosed (n : Node) : Node :=
  match n.closeOnRead with
  | some r => { n with closeOnRead := none }.ensureClosed r
  | none => n

theorem expositions_closeRemote (remote : Remote) (n : Node) :
    (n.closeRemote remote).expositions = n.expositions := by
  cases remote <;> rfl

theorem expositions_ensureClosed_congr (hfollowers : m.followers = n.followers)
    (hexpositions : m.expositions = n.expositions) (r : Nat) :
    (m.ensureClosed r).expositions = (n.ensureClosed r).expositions := by
  unfold ensureClosed closeDynamic
  rw [hfollowers]
  cases n.followers[r]? with
  | none => exact hexpositions
  | some f =>
    simp only [exposition_congr hexpositions]
    cases f.registry.close (n.exposition f.exposition) with
    | error e => exact hexpositions
    | ok p =>
      obtain ⟨d, e, notices⟩ := p
      simp only [bind, Except.bind, pure, Except.pure, expositions_closeRemote]
      simp only [tell, setExposition, modifyFollower, hexpositions]

theorem expositions_readingClosed_congr (hfollowers : m.followers = n.followers)
    (hexpositions : m.expositions = n.expositions) (hdue : m.closeOnRead = n.closeOnRead) :
    m.readingClosed.expositions = n.readingClosed.expositions := by
  unfold readingClosed
  rw [hdue]
  cases n.closeOnRead with
  | none => exact hexpositions
  | some r =>
    refine expositions_ensureClosed_congr ?_ ?_ r
    · exact hfollowers
    · exact hexpositions

theorem exports_readRemote (remote : Remote) (n : Node) :
    SameExports n (n.readRemote remote).1 ∨ SameExports n.readingClosed (n.readRemote remote).1 := by
  have hstep := read_step remote n
  generalize (n.readRemote remote).1 = m at hstep ⊢
  cases hstep with
  | watch | feed _ => exact Or.inl (.of_expositions rfl)
  | closes hdue =>
    refine Or.inr (.of_expositions ?_)
    unfold readingClosed
    rw [hdue]
    refine expositions_ensureClosed_congr ?_ ?_ _
    · rfl
    · rfl

theorem tasks_ensureClosed (r : Nat) (n : Node) : (n.ensureClosed r).tasks = n.tasks := by
  unfold ensureClosed
  split
  next m hm =>
    obtain ⟨f, d, e, notices, _, _, rfl⟩ := closeDynamic_eq_ok hm
    cases f.remote <;> rfl
  next => rfl

theorem tasks_readRemote (remote : Remote) (n : Node) : (n.readRemote remote).1.tasks = n.tasks := by
  have hstep := read_step remote n
  generalize (n.readRemote remote).1 = m at hstep ⊢
  cases hstep with
  | watch | feed _ => rfl
  | closes _ => exact tasks_ensureClosed _ _

/-! ### A call that founds nothing -/

/-- A change of signals, notices and calls, of which watcher counts, exports and tasks know nothing. -/
structure Unmoved (n k : Node) : Prop where
  footing : k.footing = n.footing
  expositions : k.expositions = n.expositions
  closeOnRead : k.closeOnRead = n.closeOnRead
  followers : k.followers = n.followers
  tasks : k.tasks = n.tasks

/-- What the remote side is read for: nothing else changes, unless a registry is closed meanwhile. -/
structure Reads (n k : Node) : Prop where
  footing : k.footing = n.footing
  exports : SameExports n k ∨ SameExports n.readingClosed k
  followers : k.followers.length = n.followers.length
  tasks : k.tasks = n.tasks

/-- What a call that follows a remote side leaves of a node when it founds no registry. -/
structure Spared (a : Nat) (remote : Remote) (n m : Node) : Prop where
  footing : (m.without a).footing = (n.dropRemote remote).footing
  exports : SameExports n m
  followers : m.followers.length = n.followers.length
  tasks : ∀ t ∈ m.tasks, t ∈ n.tasks

theorem unmoved_tell (notices : List Notice) (n : Node) : Unmoved n (n.tell notices) :=
  ⟨rfl, rfl, rfl, rfl, rfl⟩

theorem unmoved_takeSignal (remote : Remote) (n : Node) : Unmoved n (n.takeSignal remote).1 := by
  refine ⟨footing_takeSignal remote n, ?_, ?_, followers_takeSignal remote n, ?_⟩
  all_goals cases remote <;> rfl

theorem Unmoved.reads (h : Unmoved n k) : Reads n k :=
  ⟨h.footing, Or.inl (.of_expositions h.expositions), congrArg List.length h.followers, h.tasks⟩

theorem Unmoved.trans_reads (h : Unmoved n k) (h' : Reads k m) : Reads n m where
  footing := h'.footing.trans h.footing
  exports := by
    refine h'.exports.imp (SameExports.of_expositions h.expositions).trans fun hclosed => ?_
    exact (SameExports.of_expositions (expositions_readingClosed_congr h.followers h.expositions
      h.closeOnRead)).trans hclosed
  followers := h'.followers.trans (congrArg List.length h.followers)
  tasks := h'.tasks.trans h.tasks

theorem reads_readRemote (remote : Remote) (n : Node) : Reads n (n.readRemote remote).1 :=
  ⟨footing_readRemote remote n, exports_readRemote remote n,
    congrArg Lines.founded (lines_readRemote remote n), tasks_readRemote remote n⟩

theorem Spared.after (h : Spared a remote k m) (hfooting : k.footing = n.footing)
    (hexports : SameExports n k) (hfollowers : k.followers.length = n.followers.length)
    (htasks : k.tasks = n.tasks) : Spared a remote n m where
  footing := h.footing.trans (footing_dropRemote_congr hfooting remote)
  exports := hexports.trans h.exports
  followers := h.followers.trans hfollowers
  tasks t ht := htasks ▸ h.tasks t ht

theorem Spared.unmoved (h : Spared a remote k m) (hk : Unmoved n k) : Spared a remote n m :=
  h.after hk.footing (.of_expositions hk.expositions) (congrArg List.length hk.followers) hk.tasks

theorem spared_fail (ha : a < n.attempts.length) (i : Nat) (remote : Remote) (e : Error) :
    Spared a remote n (n.fail a i remote e) where
  footing := by
    rw [without_of_stage (stageAt_of_lines (lines_fail a i remote e n) ha) rfl]
    have hclosed := footing_dropRemote_congr (footing_closeRemote remote n) remote
    exact hclosed
  exports := by
    refine .of_expositions ?_
    cases remote <;> rfl
  followers := congrArg List.length (followers_fail a i remote e n)
  tasks t ht := by
    have hmem : t ∈ ((n.closeRemote remote).dropRemote remote).tasks := (List.mem_filter.mp ht).1
    cases remote <;> exact hmem

theorem spared_tell_fail (ha : a < n.attempts.length) (i : Nat) (remote : Remote)
    (notices : List Notice) (e : Error) : Spared a remote n ((n.tell notices).fail a i remote e) := by
  have hfail : Spared a remote (n.tell notices) ((n.tell notices).fail a i remote e) :=
    spared_fail (n := n.tell notices) ha i remote e
  exact hfail.unmoved (unmoved_tell notices n)

theorem spared_build (ha : a < n.attempts.length) {o : DynamicOptions}
    {first : Option (Value × Topology)}
    (h : ∀ r, (n.build a i o remote first).stageAt a ≠ some (.finished (.ok r))) :
    Spared a remote n (n.build a i o remote first) := by
  have hexports (cause : MetricsError) := @sameExports_createInstruments n o.exposition o.scope cause
  have hlines : (n.createInstruments o.exposition o.scope).1.lines = n.lines := rfl
  have hinner := inner_createInstruments o.exposition o.scope n
  have hstep := build_step a i o remote first n
  generalize n.build a i o remote first = last at hstep h ⊢
  cases hstep with
  | @fails k cause hmade =>
    rw [hmade] at hexports hlines hinner
    obtain ⟨hstore, _, _, hfollowers, htasks, _⟩ := Inner.mk.inj hinner
    refine (spared_tell_fail (lt_attempts_of_lines hlines ha) i remote _ _).after ?_
      (hexports cause rfl) (congrArg List.length hfollowers) htasks
    exact congrArg (fun s : Store => (s.keys, s.seats)) hstore
  | @founds k instruments f hmade _ =>
    rw [hmade] at hlines
    have ha := lt_attempts_of_lines hlines ha
    let r := k.followers.length
    let built : Node := (({ k with followers := k.followers ++ [f] }.addTask (.updates r)).addTask
      (.samples r)).modifyInitializer i fun x => { x with registry := some r }
    have hfinished : (built.endAttempt a i (.finished (.ok r))).stageAt a = some (.finished (.ok r)) :=
      stageAt_of_lines (n := built) (i := i) rfl ha
    exact absurd hfinished (h r)

theorem spared_conclude (ha : a < n.attempts.length) {o : DynamicOptions}
    (h : ∀ r, (n.conclude a i o remote).stageAt a ≠ some (.finished (.ok r))) :
    ∃ k, Reads n k ∧ Spared a remote k (n.conclude a i o remote) := by
  refine ⟨(n.readRemote remote).1, reads_readRemote remote n, ?_⟩
  have ha := lt_attempts_of_lines (lines_readRemote remote n) ha
  have hstep := conclude_step a i o remote n
  generalize n.conclude a i o remote = m at hstep h ⊢
  cases hstep with
  | builds _ _ | empty _ _ => exact spared_build ha h
  | invalid _ _ | absent _ _ => exact spared_tell_fail ha i remote _ _

theorem spared_await (ha : a < n.attempts.length) {o : DynamicOptions} {deadline : Nat}
    (h : ∀ r, (n.await a i o remote deadline).stageAt a ≠ some (.finished (.ok r))) :
    ∃ k, Reads n k ∧ Spared a remote k (n.await a i o remote deadline) := by
  have htake := unmoved_takeSignal remote n
  have ha := lt_attempts_of_lines (lines_takeSignal remote n) ha
  have hstep := await_step a i o remote deadline n
  generalize n.await a i o remote deadline = m at hstep h ⊢
  cases hstep with
  | changed _ =>
    obtain ⟨j, hj, hspared⟩ := spared_conclude ha h
    exact ⟨j, htake.trans_reads hj, hspared⟩
  | ended _ =>
    obtain ⟨j, hj, hspared⟩ := spared_conclude (n := (n.takeSignal remote).1.tell _) ha h
    exact ⟨j, htake.trans_reads ((unmoved_tell _ _).trans_reads hj), hspared⟩
  | late _ _ => exact ⟨_, htake.reads, spared_tell_fail ha i remote _ _⟩
  | waits _ _ =>
    -- It holds the watch as it did, and lets go of it when it is taken away.
    refine ⟨_, htake.reads, ?_⟩
    have hwaits : ((n.takeSignal remote).1.modifyAttempt a fun x =>
        { x with stage := .waiting remote deadline }).stageAt a = some (.waiting remote deadline) := by
      simp [stageAt, modifyAttempt, ha]
    refine ⟨?_, .of_expositions rfl, rfl, fun t ht => ht⟩
    rw [without_of_waiting hwaits]
    cases remote <;> rfl

/-! ### A turn that founds nothing -/

/-- What a turn of a call leaves as it was: how many watches others have, what is exported, the registries
and the tasks. Only a registry that is due to be closed may be closed while the feed is read. -/
structure Untouched (a : Nat) (n n' : Node) : Prop where
  watchers (key : String) :
    (n'.without a).store.watcherCount key = (n.without a).store.watcherCount key
  exports : SameExports n n' ∨ SameExports n.readingClosed n'
  followers : n'.followers.length = n.followers.length
  tasks : ∀ t ∈ n'.tasks, t ∈ n.tasks

/-- A call follows a remote side, and its own watch is all that is new. -/
structure Opens (a : Nat) (remote : Remote) (n m : Node) : Prop where
  watchers (key : String) :
    (m.dropRemote remote).store.watcherCount key = (n.without a).store.watcherCount key
  expositions : m.expositions = n.expositions
  closeOnRead : m.closeOnRead = n.closeOnRead
  followers : m.followers = n.followers
  tasks : m.tasks = n.tasks

theorem Opens.untouched {j : Node} (h : Opens a remote n m) (hj : Reads m j)
    (hk : Spared a remote j k) : Untouched a n k where
  watchers key := by
    have hdropped := footing_dropRemote_congr hj.footing remote
    exact (watcherCount_of_footing (hk.footing.trans hdropped) key).trans (h.watchers key)
  exports := by
    have hclosed : m.readingClosed.expositions = n.readingClosed.expositions :=
      expositions_readingClosed_congr h.followers h.expositions h.closeOnRead
    refine hj.exports.imp (fun hsame => ?_) fun hsame => ?_
    · exact ((SameExports.of_expositions h.expositions).trans hsame).trans hk.exports
    · exact ((SameExports.of_expositions hclosed).trans hsame).trans hk.exports
  followers := hk.followers.trans (hj.followers.trans (congrArg List.length h.followers))
  tasks t ht := h.tasks ▸ hj.tasks ▸ hk.tasks t ht

theorem opens_follow {client : Client} {key : String} (hplaced : n.store.Placed)
    (hwithout : n.without a = n) (h : n.follow client key = .ok (m, remote)) :
    Opens a remote n m := by
  cases follow_step h with
  | store =>
    refine ⟨fun key' => ?_, rfl, rfl, rfl, rfl⟩
    rw [hwithout]
    exact hplaced.watcherCount_dropWatch_watch key key'
  | service _ =>
    refine ⟨fun key' => ?_, rfl, rfl, rfl, rfl⟩
    rw [hwithout]
    rfl

theorem Untouched.refl (a : Nat) (n : Node) : Untouched a n n :=
  ⟨fun _ => rfl, Or.inl (.of_expositions rfl), rfl, fun _ ht => ht⟩

/-- Who stands in line, and which tasks do, makes no difference. -/
theorem Untouched.before (h : Untouched a m k) (hworld : m.world = n.world)
    (hattempts : m.attempts = n.attempts) (htasks : m.tasks = n.tasks) : Untouched a n k where
  watchers key := by
    rw [h.watchers, store_without_congr (congrArg World.store hworld) hattempts]
  exports := by
    have hexpositions : m.expositions = n.expositions := congrArg World.expositions hworld
    have hfollowers : m.followers = n.followers := congrArg World.followers hworld
    have hdue : m.closeOnRead = n.closeOnRead := congrArg World.closeOnRead hworld
    refine h.exports.imp (SameExports.of_expositions hexpositions).trans fun hclosed => ?_
    exact (SameExports.of_expositions (expositions_readingClosed_congr hfollowers hexpositions
      hdue)).trans hclosed
  followers := h.followers.trans (congrArg (fun w : World => w.followers.length) hworld)
  tasks t ht := htasks ▸ h.tasks t ht

theorem untouched_endAttempt (ha : a < n.attempts.length) (hwithout : n.without a = n) (i : Nat)
    {stage : Stage} (hstage : stage.remote? = none) : Untouched a n (n.endAttempt a i stage) where
  watchers key := by
    rw [hwithout, without_of_stage (stageAt_of_lines (i := i) rfl ha) hstage]
    rfl
  exports := Or.inl (.of_expositions rfl)
  followers := rfl
  tasks _ ht := (List.mem_filter.mp ht).1

theorem untouched_takeTurn (ha : a < n.attempts.length) (hplaced : n.store.Placed)
    (hwithout : n.without a = n) {y : Initializer}
    (h : ∀ r, (n.takeTurn a i y).stageAt a ≠ some (.finished (.ok r))) :
    Untouched a n (n.takeTurn a i y) := by
  have hstep := turn_step a i y n
  generalize n.takeTurn a i y = k at hstep h ⊢
  cases hstep with
  | @stands r _ => exact absurd (stageAt_of_lines (i := i) rfl ha) (h r)
  | invalid _ _ | unfollowed _ _ _ _ => exact untouched_endAttempt ha hwithout i rfl
  | concludes _ _ _ hf _ =>
    obtain ⟨k, hk, hspared⟩ := spared_conclude (lt_attempts_of_lines (lines_follow hf) ha) h
    exact (opens_follow hplaced hwithout hf).untouched hk hspared
  | awaits _ _ _ hf _ =>
    obtain ⟨k, hk, hspared⟩ := spared_await (lt_attempts_of_lines (lines_follow hf) ha) h
    exact (opens_follow hplaced hwithout hf).untouched hk hspared

theorem untouched_abandon {x : Attempt} (hx : n.attempts[a]? = some x) (i : Nat) :
    Untouched a n (n.abandon a i x.stage) := by
  have ha := (List.getElem?_eq_some_iff.mp hx).1
  have hn := stageAt_of_attempt hx
  cases hstage : x.stage with
  | waiting remote deadline =>
    rw [hstage] at hn
    have habandoned : (n.abandon a i (.waiting remote deadline)).stageAt a = some .abandoned :=
      stageAt_of_lines (lines_abandon a i _ n) ha
    have hworld : (n.abandon a i (.waiting remote deadline)).world = (n.dropRemote remote).world :=
      world_endAttempt a i _ _
    refine ⟨fun key => ?_, Or.inl (.of_expositions ?_), ?_, fun t ht => ?_⟩
    · rw [without_of_stage habandoned rfl, without_of_waiting hn]
      exact congrArg (fun w : World => w.store.watcherCount key) hworld
    · refine (congrArg World.expositions hworld).trans ?_
      cases remote <;> rfl
    · refine (congrArg (fun w : World => w.followers.length) hworld).trans ?_
      cases remote <;> rfl
    · have hmem : t ∈ (n.dropRemote remote).tasks := (List.mem_filter.mp ht).1
      cases remote <;> exact hmem
  | fresh | queued | finished _ | abandoned =>
    rw [hstage] at hn
    exact untouched_endAttempt ha (without_of_stage hn rfl) i rfl

theorem untouched_stepAttempt (hplaced : n.store.Placed)
    (h : ∀ r, (n.stepAttempt a).stageAt a ≠ some (.finished (.ok r))) :
    Untouched a n (n.stepAttempt a) := by
  have hlt {x : Attempt} (hx : n.attempts[a]? = some x) : a < n.attempts.length :=
    (List.getElem?_eq_some_iff.mp hx).1
  have hturned := turned_stepAttempt a n
  generalize n.stepAttempt a = k at h hturned ⊢
  cases hturned with
  | stays => exact .refl a n
  | ends =>
    refine ⟨fun key => ?_, Or.inl (.of_expositions rfl), rfl, fun t ht => (List.mem_filter.mp ht).1⟩
    rw [store_without_congr (n := n)] <;> rfl
  | @abandons x hx _ => exact untouched_abandon hx x.initializer
  | @queues x y hx hstage hy _ =>
    have hfresh := (stageAt_of_attempt hx).trans (congrArg some hstage)
    have hqueued : ((n.modifyInitializer x.initializer fun y => { y with queue := y.queue ++ [a] }
        ).modifyAttempt a fun x => { x with stage := .queued }).stageAt a = some .queued := by
      have ha : a < n.attempts.length := hlt hx
      simp [stageAt, modifyAttempt, modifyInitializer, ha]
    refine ⟨fun key => ?_, Or.inl (.of_expositions rfl), rfl, fun t ht => ht⟩
    rw [without_of_stage hqueued rfl, without_of_stage hfresh rfl]
    rfl
  | @takes x y m hx hy hm =>
    have hm' : m.attempts[a]? = some x := by rw [hm.attempts, hx]
    have hwithout : m.without a = m := without_of_stage (stageAt_of_attempt hm') hm.remote?_eq_none
    have hstore : m.store = n.store := congrArg World.store hm.world
    have ha : a < m.attempts.length := (List.getElem?_eq_some_iff.mp hm').1
    have htakes := untouched_takeTurn ha (hstore ▸ hplaced) hwithout h
    exact htakes.before hm.world hm.attempts hm.tasks
  | @resumes x y remote deadline hx hy hstage =>
    obtain ⟨k, hk, hspared⟩ := spared_await (hlt hx) h
    have hopens : Opens a remote n n := by
      refine ⟨fun key => ?_, rfl, rfl, rfl, rfl⟩
      rw [without_of_waiting ((stageAt_of_attempt hx).trans (congrArg some hstage))]
    exact hopens.untouched hk hspared

/-- A turn of a call that does not succeed by it leaves everything else alone. -/
theorem untouched_turn (hplaced : n.store.Placed)
    (h : ∀ r, (n.occur (.turn (.attempt a))).result? a ≠ some (.ok r)) :
    Untouched a n (n.occur (.turn (.attempt a))) := by
  have hstep : ∀ r, (n.stepAttempt a).stageAt a ≠ some (.finished (.ok r)) := by
    intro r hr
    obtain ⟨x, hx, hstage⟩ := Option.map_eq_some_iff.mp hr
    refine h r (result?_of_stage ?_ hstage)
    rw [attempts_occur_attempt, hx]
  have hqueued (k : Node) (hk : Untouched a n k) : Untouched a n (k.dequeue (.attempt a)).refresh := by
    refine ⟨fun key => ?_, hk.exports, hk.followers, hk.tasks⟩
    have hstore : ((k.dequeue (.attempt a)).refresh.without a).store = (k.without a).store :=
      store_without_congr rfl rfl
    rw [hstore, hk.watchers]
  exact hqueued _ (untouched_stepAttempt hplaced hstep)

/-! ### Watches beside those of a call -/

/-- How many watches on a key somebody has, leaving out what a call follows. -/
def watchersBeside (a : Nat) (key : String) (n : Node) : Nat := (n.without a).store.watcherCount key

def Event.isTurnOf (a : Nat) : Event → Bool
  | .turn (.attempt b) => b = a
  | _ => false

/-- What everything but the turns of a call adds to the watches on a key along a run. -/
def addedBeside (a : Nat) (key : String) : Node → List Event → Int
  | _, [] => 0
  | n, e :: es =>
    (if e.isTurnOf a then 0 else ((n.occur e).watchersBeside a key : Int) - n.watchersBeside a key) +
      addedBeside a key (n.occur e) es

def UntouchedAlong (a : Nat) (n : Node) (es : List Event) : Prop :=
  ∀ before after, es = before ++ .turn (.attempt a) :: after →
    Untouched a (n.run before) (n.run (before ++ [.turn (.attempt a)]))

theorem watchersBeside_run {n : Node} {es : List Event} (h : UntouchedAlong a n es) (key : String) :
    ((n.run es).watchersBeside a key : Int) = n.watchersBeside a key + n.addedBeside a key es := by
  induction es generalizing n with
  | nil => exact (Int.add_zero _).symm
  | cons e es ih =>
    have hlater : UntouchedAlong a (n.occur e) es := by
      rintro before after rfl
      exact h (e :: before) after rfl
    have hrun : (((n.occur e).run es).watchersBeside a key : Int) =
        (n.occur e).watchersBeside a key + (n.occur e).addedBeside a key es := ih hlater
    change (((n.occur e).run es).watchersBeside a key : Int) = _
    rw [hrun, addedBeside]
    split
    next hturn =>
      obtain rfl : e = .turn (.attempt a) := by
        cases e with
        | turn t =>
          cases t with
          | attempt b => exact congrArg (fun b => Event.turn (.attempt b)) (of_decide_eq_true hturn)
          | _ => cases hturn
        | _ => cases hturn
      have hsame : (n.occur (.turn (.attempt a))).watchersBeside a key = n.watchersBeside a key :=
        (h [] es rfl).watchers key
      rw [hsame]
      omega
    next => omega

/-! ### Calls that fail -/

/-- A call that ends in an error has not founded a registry by any of its turns. -/
theorem untouchedAlong_of_error {cause : Error} {n : Node} (hn : n.Lined) (hsound : n.store.Sound)
    (hplaced : n.store.Placed) {es : List Event} (h : (n.run es).result? a = some (.error cause)) :
    UntouchedAlong a n es := by
  rintro before after rfl
  rw [run_append n before]
  refine untouched_turn (placed_run hsound hplaced before) fun r hr => ?_
  obtain ⟨x, hx, hfinished⟩ := result?_eq_some hr
  have hlined : ((n.run before).occur (.turn (.attempt a))).Lined :=
    (hn.run before).occur (.turn (.attempt a))
  have hover : x.stage.isOver = true := by
    rw [hfinished]
    rfl
  obtain ⟨x', hx', hlater⟩ := hlined.over_run hx hover after
  obtain ⟨z, hz, herror⟩ := result?_eq_some h
  rw [run_append] at hz
  obtain rfl := Option.some.inj (hx'.symm.trans hz)
  rw [herror, hfinished] at hlater
  rcases hlater with hsame | hgone
  · cases hsame
  · cases hgone

/-- A call that has just come to an error has not changed what keys hold: that is what outside writes alone
have made of them. As many watch a key as everything but the call has brought. By none of its turns has it
changed what is exported, or added a task or a registry. Its initializer is empty, and it does not stand in
line there. So as long as none is built there, a call whose turn it is goes the way of a first call, whatever
happens around it. -/
theorem failed_call_leaves_nothing (es : List Event) (a : Nat) (cause : Error)
    (hbefore : (start.run es).result? a = none)
    (hafter : (start.run (es ++ [.turn (.attempt a)])).result? a = some (.error cause)) :
    let all : List Event := es ++ [.turn (.attempt a)]
    let n := start.run all
    (∀ key, n.store.get key = ((all.filterMap Event.write?).foldl Store.occur .empty).get key) ∧
    (∀ key, (n.store.watcherCount key : Int) = start.addedBeside a key all) ∧
    UntouchedAlong a start all ∧
    ∀ i, n.isCallOn i a = true → n.registryOf i = none ∧
      (∀ y, n.initializers[i]? = some y → a ∉ y.queue) ∧
      ∀ es' b, n.builtAlong i es' = [] → (n.run es').HasTurn i b → (n.run es').GoesAsFirst i b := by
  intro all n
  have hn : n.Lined := lined_start.run all
  have huntouched : UntouchedAlong a start all :=
    untouchedAlong_of_error lined_start Store.sound_empty Store.placed_empty hafter
  obtain ⟨x, hx, hstage⟩ : ∃ x : Attempt, n.attempts[a]? = some x ∧ x.stage = .finished (.error cause) :=
    result?_eq_some hafter
  have hempty : n.registryOf x.initializer = none := by
    have hlast : n = (start.run es).occur (.turn (.attempt a)) := run_append start es _
    have hturn := turn_stepAttempt (lined_start.run es) a
    rw [← lines_occur_attempt, ← hlast] at hturn
    refine hturn.failed hx hstage fun w hw hfinished => ?_
    rw [result?_of_stage hw hfinished] at hbefore
    cases hbefore
  refine ⟨?_, ?_, huntouched, fun i hi => ?_⟩
  · exact get_run (n := start) Store.sound_empty Store.sound_empty (fun _ => rfl) _
  · intro key
    have hcount := watchersBeside_run huntouched key
    have hwithout : n.without a = n :=
      without_of_stage ((stageAt_of_attempt hx).trans (congrArg some hstage)) rfl
    have hstart : start.watchersBeside a key = 0 := rfl
    rw [hstart, watchersBeside, hwithout] at hcount
    omega
  · obtain ⟨x', hx', rfl⟩ := exists_of_isCallOn hi
    obtain rfl := Option.some.inj (hx.symm.trans hx')
    refine ⟨hempty, fun y hy hmem => ?_, fun es' b hnone hturn => goesAsFirst hturn ?_⟩
    · obtain ⟨z, hz, _, hline⟩ := hn.queued _ y a hy hmem
      obtain rfl := Option.some.inj (hx.symm.trans hz)
      rw [hstage] at hline
      cases hline
    · have htoList := hn.toList_registryOf x.initializer es'
      rw [hempty, hnone] at htoList
      exact Option.toList_eq_nil_iff.mp htoList

/-- Somebody else has had a gauge under the name of ours, with a text of his own, and watches the key. So a
call finds its counter accepted and its gauge refused. -/
def smallRefusal : List Event :=
  let foreign : Collector := ⟨"app_current_version", .plain "Version", .gauge, .fixed none⟩
  [.store (.set "namespaces" (smallDocument 97)), .store (.watch "namespaces"),
   .register "main" foreign, .unregister "main" foreign,
   .addInitializer ⟨some .store, "namespaces", Span.zero, "app", Span.ofSeconds 60, "main"⟩, .call 0]

theorem failed_call_leaves_nothing_small :
    let n := start.run (smallRefusal ++ [.turn (.attempt 0)])
    (∃ cause, n.result? 0 = some (.error cause)) ∧
    n.store.get "namespaces" = some ⟨1, smallDocument 97⟩ ∧ n.store.watcherCount "namespaces" = 1 ∧
    Untouched 0 (start.run smallRefusal) n ∧ (n.occur (.call 0)).GoesAsFirst 0 1 := by
  intro n
  obtain ⟨cause, hresult⟩ : ∃ cause, n.result? 0 = some (.error cause) :=
    exists_error (by decide +kernel)
  have hbefore : ((start.run smallRefusal).result? 0).isNone = true := by
    decide +kernel
  obtain ⟨hget, hcount, huntouched, hslot⟩ := failed_call_leaves_nothing smallRefusal 0 cause
    (Option.isNone_iff_eq_none.mp hbefore) hresult
  obtain ⟨_, _, hretry⟩ := hslot 0 (by decide +kernel)
  have hadded : start.addedBeside 0 "namespaces" (smallRefusal ++ [.turn (.attempt 0)]) = 1 := by
    decide +kernel
  have hturn : (n.occur (.call 0)).HasTurn 0 1 := by
    decide +kernel
  refine ⟨⟨cause, hresult⟩, ?_, ?_, huntouched smallRefusal [] rfl, hretry [.call 0] 1 rfl hturn⟩
  · rw [hget]
    decide +kernel
  · have hwatches := hcount "namespaces"
    rw [hadded] at hwatches
    exact Int.ofNat_inj.mp hwatches

end NamespaceTopology.Node
