import NamespaceTopology.Proofs.Node.Watches

set_option autoImplicit false

/-!
Update loops that go on. A loop finishes only when its registry is closed, so as long as the registry is
open the loop is ready whenever its remote side has a signal for it, be it of a change or of the end.
-/
namespace NamespaceTopology.Node

def Working (n : Node) : Prop := ∀ (r : Nat) (f : Follower), n.followers[r]? = some f →
  f.loopDone = true → f.registry.closed = true

theorem working_start : start.Working := by
  intro r f hf
  simp [start] at hf

variable {n m : Node}

theorem Working.congr (hn : n.Working) (hfollowers : m.followers = n.followers) : m.Working := by
  intro r f hf
  exact hn r f (hfollowers ▸ hf)

theorem Working.of_core (hn : n.Working) (h : m.core = n.core) : m.Working :=
  hn.congr (congrArg Core.followers h)

theorem Working.modify (hn : n.Working) {r : Nat} {g : Follower → Follower}
    (hg : ∀ f, n.followers[r]? = some f → (f.loopDone = true → f.registry.closed = true) →
      (g f).loopDone = true → (g f).registry.closed = true) : (n.modifyFollower r g).Working := by
  intro s f hf
  by_cases hs : r = s
  · subst hs
    obtain ⟨x, hx, rfl⟩ : ∃ x, n.followers[r]? = some x ∧ g x = f := by
      simpa [modifyFollower] using hf
    exact hg x hx (hn r x hx)
  · refine hn s f ?_
    rwa [modifyFollower, List.getElem?_modify_ne _ _ hs] at hf

theorem Working.ensureClosed (hn : n.Working) (r : Nat) : (n.ensureClosed r).Working := by
  unfold Node.ensureClosed
  split
  next m hm =>
    obtain ⟨f, d, e, notices, _, hclose, rfl⟩ := closeDynamic_eq_ok hm
    have hclosed : (n.modifyFollower r fun f => { f with registry := d }).Working :=
      hn.modify fun _ _ _ _ => (Dynamic.closed_of_close hclose).2
    exact hclosed.congr (followers_closeRemote f.remote _)
  next => exact hn

theorem Working.endLoop (hn : n.Working) {r : Nat}
    (hclosed : ∀ d, n.registryAt r = some d → d.closed = true) : (n.endLoop r).Working := by
  refine Working.congr (n := n.modifyFollower r fun f => { f with loopDone := true }) ?_ rfl
  refine hn.modify fun f hf _ _ => hclosed f.registry ?_
  exact registryAt_of_follower hf

theorem Working.readRemote (hn : n.Working) (remote : Remote) : (n.readRemote remote).1.Working := by
  have hstep := read_step remote n
  generalize (n.readRemote remote).1 = m at hstep ⊢
  cases hstep with
  | watch | feed _ => exact hn
  | closes _ =>
    have hread : Node.Working { n with
      feed := { n.feed with reads := n.feed.reads + 1 }
      closeOnRead := none } := hn
    exact hread.ensureClosed _

theorem Working.wake (hn : n.Working) (r : Nat) (content : Option Value) :
    (n.wake r content).Working := by
  unfold Node.wake
  split
  · exact hn
  next f hf =>
    have hreceived : (n.modifyFollower r fun g =>
        { g with registry := (f.registry.receive content).1 }).Working := by
      refine hn.modify fun g hg hworks hdone => ?_
      obtain rfl := Option.some.inj (hf.symm.trans hg)
      exact (Dynamic.closed_receive f.registry content).trans (hworks hdone)
    exact hreceived

theorem Working.stepUpdates (hn : n.Working) (r : Nat) : (n.stepUpdates r).Working := by
  have htaken {remote : Remote} : (n.takeSignal remote).1.Working :=
    hn.congr (followers_takeSignal remote n)
  have hstep := update_step r n
  generalize n.stepUpdates r = m at hstep ⊢
  cases hstep with
  | gone _ => exact hn
  | ends hf hclosed =>
    refine hn.endLoop fun d hd => ?_
    rw [registryAt, hf] at hd
    exact Option.some.inj hd ▸ hclosed
  | waits _ _ _ => exact htaken
  | ended _ _ _ => exact (htaken.ensureClosed r).endLoop fun d hd => closed_of_ensureClosed hd
  | wakes _ _ _ => exact (htaken.readRemote _).wake r _

theorem Working.stepSamples (hn : n.Working) (r : Nat) : (n.stepSamples r).Working := by
  have hstep := sample_step r n
  generalize n.stepSamples r = m at hstep ⊢
  cases hstep with
  | gone _ | waits _ _ _ => exact hn
  | ends _ _ => exact hn.modify (g := fun f => { f with samplerDone := true }) fun _ _ hf => hf
  | samples _ _ _ =>
    exact hn.modify fun _ _ hworks hdone =>
      (Dynamic.closed_after (m := .sample) rfl).trans (hworks hdone)

theorem Working.modifyHub (hn : n.Working) (source : Source) (change : {α : Type} → Hub α → Hub α) :
    (n.modifyHub source change).Working := by
  cases source with
  | hub _ | static _ => exact hn
  | dynamic r => exact hn.modify fun _ _ hf hdone => hf hdone

theorem Working.stepConsumer (hn : n.Working) (c : Nat) : (n.stepConsumer c).Working := by
  have hstep := consume_step c n
  generalize n.stepConsumer c = m at hstep ⊢
  cases hstep with
  | gone _ => exact hn
  | waits _ _ _ | takes _ _ _ | stops _ _ _ => exact hn.modifyHub _ _

theorem Working.watch (hn : n.Working) (source : Source) : (n.occur (.watch source)).Working := by
  have hstep := watch_step source n
  generalize n.occur (.watch source) = m at hstep ⊢
  cases hstep with
  | refused _ | static _ _ | hub _ _ => exact hn
  | dynamic hf hw =>
    obtain ⟨hopen, hub, _, hd⟩ := Dynamic.watch_eq_ok hw
    refine hn.modify fun g hg hworks hdone => ?_
    obtain rfl := Option.some.inj (hf.symm.trans hg)
    rw [hworks hdone] at hopen
    cases hopen

theorem Working.close (hn : n.Working) (source : Source) : (n.occur (.close source)).Working := by
  cases source with
  | hub _ | static _ => exact hn.of_core (core_close (by simp) n)
  | dynamic r => exact hn.ensureClosed r

theorem Working.withdrawDynamic (hn : n.Working) (r : Nat) : (n.withdrawDynamic r).Working := by
  unfold Node.withdrawDynamic
  split
  next => exact hn
  next f hf =>
    refine Working.congr (hn.modify fun g hg hbefore hdone => ?_) rfl
    obtain rfl := Option.some.inj (hf.symm.trans hg)
    exact hbefore hdone

theorem Working.release (hn : n.Working) (h : Handles) : (n.release h).Working := by
  refine release_related (R := fun n m => n.Working → m.Working) (fun _ h => h)
    (fun _ _ _ h h' hn => h' (h hn)) (fun _ _ h => h) (fun _ source id h => ?_) h n hn
  exact h.modifyHub source fun hub => hub.drop id

/-! ### Calls -/

variable {a i : Nat} {o : DynamicOptions} {remote : Remote}

theorem Working.fail (hn : n.Working) (e : Error) : (n.fail a i remote e).Working :=
  hn.congr (followers_fail a i remote e n)

theorem Working.build (hn : n.Working) (first : Option (Value × Topology)) :
    (n.build a i o remote first).Working := by
  have hcore := core_createInstruments o.exposition o.scope n
  have hstep := build_step a i o remote first n
  generalize n.build a i o remote first = built at hstep ⊢
  cases hstep with
  | @fails m cause hmade =>
    rw [hmade] at hcore
    have hm : m.Working := hn.of_core hcore
    have htold (notices : List Notice) : (m.tell notices).Working := hm
    exact (htold _).fail _
  | @founds m instruments f hmade hnew =>
    rw [hmade] at hcore
    have hm : m.Working := hn.of_core hcore
    intro r g hg hdone
    rcases Nat.lt_or_ge r m.followers.length with hlt | hge
    · exact hm r g ((List.getElem?_append_left hlt).symm.trans hg) hdone
    · -- A new loop has not finished.
      have hlast := (List.getElem?_append_right hge).symm.trans hg
      obtain rfl := List.mem_singleton.mp (List.mem_of_getElem? hlast)
      rw [hnew] at hdone
      cases hdone

theorem Working.conclude (hn : n.Working) : (n.conclude a i o remote).Working := by
  have hread := hn.readRemote remote
  have htold (notices : List Notice) : ((n.readRemote remote).1.tell notices).Working := hread
  have hstep := conclude_step a i o remote n
  generalize n.conclude a i o remote = m at hstep ⊢
  cases hstep with
  | builds _ _ | empty _ _ => exact hread.build _
  | invalid _ _ | absent _ _ => exact (htold _).fail _

theorem Working.await (hn : n.Working) (deadline : Nat) : (n.await a i o remote deadline).Working := by
  have htaken : (n.takeSignal remote).1.Working := hn.congr (followers_takeSignal remote n)
  have htold (notices : List Notice) : ((n.takeSignal remote).1.tell notices).Working := htaken
  have hstep := await_step a i o remote deadline n
  generalize n.await a i o remote deadline = m at hstep ⊢
  cases hstep with
  | changed _ => exact htaken.conclude
  | ended _ => exact (htold _).conclude
  | late _ _ => exact (htold _).fail _
  | waits _ _ => exact htaken

theorem Working.takeTurn (hn : n.Working) (x : Initializer) : (n.takeTurn a i x).Working := by
  have hstep := turn_step a i x n
  generalize n.takeTurn a i x = m at hstep ⊢
  cases hstep with
  | stands _ | invalid _ _ | unfollowed _ _ _ _ => exact hn
  | @concludes client m remote _ _ _ hf _ =>
    have hm : m.Working := hn.congr (followers_follow hf)
    exact hm.conclude
  | @awaits client m remote _ _ _ hf _ =>
    have hm : m.Working := hn.congr (followers_follow hf)
    exact hm.await _

theorem Working.stepAttempt (hn : n.Working) (a : Nat) : (n.stepAttempt a).Working := by
  have hturned := turned_stepAttempt a n
  generalize n.stepAttempt a = m at hturned ⊢
  cases hturned with
  | stays | ends => exact hn
  | queues _ _ _ _ => exact hn
  | @abandons x _ _ => exact hn.congr (followers_abandon a x.initializer x.stage n)
  | @takes x y m _ _ hm =>
    have hreached : m.Working := by
      cases hm with
      | fresh _ _ => exact hn
      | queued _ _ => exact hn
    exact hreached.takeTurn y
  | resumes _ _ _ => exact hn.await _

/-! ### Events -/

theorem Working.occur (hn : n.Working) (e : Event) : (n.occur e).Working := by
  cases e with
  | wake r content => exact hn.wake r content
  | turn t =>
    cases t with
    | updates r => exact hn.stepUpdates r
    | samples r => exact hn.stepSamples r
    | attempt a => exact hn.stepAttempt a
    | consumer c => exact hn.stepConsumer c
  | store _ | addInitializer _ | call _ | spawnInit _ | cancel _ => exact hn
  | feed _ | closeOnRead _ | addMeter _ _ | count _ _ | report _ _ | withdraw _ | register _ _
  | unregister _ _ | addHub _ | publish _ _ | addStatic _ | consume _ _ _ | look _ | join _
  | readNotices | refresh | pass _ => exact hn.of_core (core_occur rfl n)
  | watch source => exact hn.watch source
  | close source => exact hn.close source
  | withdrawDynamic r => exact hn.withdrawDynamic r
  | next source id => exact hn.modifyHub source _
  | unsubscribe source id => exact hn.modifyHub source fun hub => hub.drop id
  | release h => exact hn.release h
  | streamEnd r => exact (hn.ensureClosed r).endLoop fun d hd => closed_of_ensureClosed hd

theorem Working.run (hn : n.Working) (es : List Event) : (n.run es).Working := by
  induction es generalizing n with
  | nil => exact hn
  | cons e es ih => exact ih (hn.occur e)

/-- The loop of an open registry is there, and it is ready as soon as it is signalled. -/
theorem Staffed.ready (hn : n.Staffed) (hw : n.Working) {r : Nat} {f : Follower}
    (hf : n.followers[r]? = some f) (hopen : f.registry.closed = false)
    (hsignal : n.signal f.remote ≠ .waiting) :
    .updates r ∈ n.tasks ∧ n.isReady (.updates r) = true := by
  have hloop : f.loopDone = false := Bool.eq_false_iff.mpr fun hdone => by
    simp [hw r f hf hdone] at hopen
  exact ⟨(hn r f hf).loop hloop, by simp [isReady, hf, hloop, hsignal]⟩

end NamespaceTopology.Node
