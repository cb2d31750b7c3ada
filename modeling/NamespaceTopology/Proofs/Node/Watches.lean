import NamespaceTopology.Proofs.Node.Closing
import NamespaceTopology.Proofs.Node.Contents
import NamespaceTopology.Proofs.Node.Turns
import NamespaceTopology.Proofs.Store.Streams

set_option autoImplicit false

/-!
The watch of one registry while others act. Nobody but its holder asks it or closes it, so as long as the
registry is open and its update loop has no turn, the watch shows what is written to the key.
-/
namespace NamespaceTopology.Node

variable {r w : Nat} {n m k : Node}

/-- A registry stays what it is for ever, and unless it has been closed its watch has been left alone. -/
structure Spares (r w : Nat) (n n' : Node) : Prop where
  persists : ∀ f, n.followers[r]? = some f → ∃ f', n'.followers[r]? = some f' ∧ Persists f f'
  store : (∃ f, n'.followers[r]? = some f ∧ f.registry.closed = true) ∨
    n.store.Leads (Store.Event.spares w) n'.store

theorem Spares.of_changes {n' : Node} (h : Changes (fun _ => True) n n')
    (hstore : n.store.Leads (Store.Event.spares w) n'.store) : Spares r w n n' :=
  ⟨fun _ hf => h.persists hf, Or.inr hstore⟩

theorem Spares.of_store {n' : Node} (h : Changes (fun _ => True) n n') (hstore : n'.store = n.store) :
    Spares r w n n' := by
  refine .of_changes h ?_
  rw [hstore]
  exact .refl n.store

theorem Spares.of_eq {n' : Node} (hfollowers : n'.followers = n.followers)
    (hstore : n'.store = n.store) : Spares r w n n' := by
  refine ⟨fun f hf => ⟨f, hfollowers ▸ hf, .refl f⟩, Or.inr ?_⟩
  rw [hstore]
  exact .refl n.store

theorem Spares.trans (h : Spares r w n m) (h' : Spares r w m k) : Spares r w n k := by
  constructor
  · intro f hf
    obtain ⟨g, hg, hfg⟩ := h.persists f hf
    obtain ⟨f', hf', hgf'⟩ := h'.persists g hg
    exact ⟨f', hf', hfg.trans hgf'⟩
  · rcases h'.store with hclosed | hstore'
    · exact Or.inl hclosed
    rcases h.store with ⟨f, hf, hclosed⟩ | hstore
    · obtain ⟨f', hf', hpersists⟩ := h'.persists f hf
      exact Or.inl ⟨f', hf', hpersists.closed hclosed⟩
    · exact Or.inr (hstore.trans hstore')

def Sole (r w : Nat) (n : Node) : Prop := ∀ s f, n.followers[s]? = some f → f.remote = .watch w → s = r

theorem Sole.congr (h : n.Sole r w) (hfollowers : m.followers = n.followers) : m.Sole r w := by
  intro s f hf
  exact h s f (hfollowers ▸ hf)

theorem spares_takeSignal {remote : Remote} (hremote : remote ≠ .watch w) :
    Spares r w n (n.takeSignal remote).1 := by
  refine .of_changes (changes_takeSignal remote n) ?_
  cases remote with
  | watch i =>
    refine Store.Leads.of (e := .look i) ?_ n.store
    exact decide_eq_true fun hi => hremote (congrArg Remote.watch hi)
  | feed => exact .refl n.store

theorem leads_closeRemote {remote : Remote} (hremote : remote ≠ .watch w) (n : Node) :
    n.store.Leads (Store.Event.spares w) (n.closeRemote remote).store := by
  cases remote with
  | watch i =>
    refine Store.Leads.of (e := .closeWatch i) ?_ n.store
    exact decide_eq_true fun hi => hremote (congrArg Remote.watch hi)
  | feed => exact .refl n.store

theorem spares_dropRemote (remote : Remote) (n : Node) : Spares r w n (n.dropRemote remote) := by
  refine .of_changes (changes_dropRemote remote n) ?_
  cases remote with
  | watch i => exact Store.Leads.of (e := .dropWatch i) rfl n.store
  | feed => exact .refl n.store

theorem spares_ensureClosed (hsole : n.Sole r w) (s : Nat) : Spares r w n (n.ensureClosed s) := by
  refine ⟨fun f hf => (changes_ensureClosed (C := fun _ => True) trivial n).persists hf, ?_⟩
  unfold ensureClosed
  split
  next m hm =>
    obtain ⟨f, d, e, notices, hf, hclose, rfl⟩ := closeDynamic_eq_ok hm
    by_cases hremote : f.remote = .watch w
    · obtain rfl := hsole s f hf hremote
      left
      rw [followers_closeRemote]
      refine ⟨{ f with registry := d }, ?_, (Dynamic.closed_of_close hclose).2⟩
      simp [tell, setExposition, modifyFollower, hf]
    · right
      have hstore := leads_closeRemote hremote
        (((n.modifyFollower s fun f => { f with registry := d }).setExposition f.exposition e).tell
          notices)
      exact hstore
  next => exact Or.inr (.refl n.store)

theorem spares_readRemote (hsole : n.Sole r w) (remote : Remote) :
    Spares r w n (n.readRemote remote).1 := by
  have hstep := read_step remote n
  generalize (n.readRemote remote).1 = m at hstep ⊢
  cases hstep with
  | watch | feed _ => exact .of_eq rfl rfl
  | closes _ =>
    let read : Node := { n with
      feed := { n.feed with reads := n.feed.reads + 1 }
      closeOnRead := none }
    have hread : Spares r w n read := .of_eq rfl rfl
    have hsole : read.Sole r w := hsole
    exact hread.trans (spares_ensureClosed hsole _)

theorem spares_endLoop (s : Nat) (n : Node) : Spares r w n (n.endLoop s) :=
  .of_changes (changes_endLoop s n) (.refl n.store)

theorem store_wake (r : Nat) (content : Option Value) (n : Node) :
    (n.wake r content).store = n.store := by
  unfold wake
  split <;> rfl

theorem spares_wake (s : Nat) (content : Option Value) (n : Node) :
    Spares r w n (n.wake s content) := .of_store (changes_wake s content n) (store_wake s content n)

theorem spares_stepUpdates (hsole : n.Sole r w) {s : Nat} (hs : s ≠ r) :
    Spares r w n (n.stepUpdates s) := by
  have htake {f : Follower} (hf : n.followers[s]? = some f) : Spares r w n (n.takeSignal f.remote).1 :=
    spares_takeSignal fun hremote => hs (hsole s f hf hremote)
  have hsole {f : Follower} : (n.takeSignal f.remote).1.Sole r w :=
    hsole.congr (followers_takeSignal f.remote n)
  have hstep := update_step s n
  generalize n.stepUpdates s = m at hstep ⊢
  cases hstep with
  | gone _ => exact .of_eq rfl rfl
  | ends _ _ => exact spares_endLoop s n
  | waits hf _ _ => exact htake hf
  | ended hf _ _ => exact ((htake hf).trans (spares_ensureClosed hsole s)).trans (spares_endLoop s _)
  | @wakes f hf _ _ =>
    exact ((htake hf).trans (spares_readRemote hsole f.remote)).trans (spares_wake s _ _)

/-! ### Calls -/

section Calls

variable {a i : Nat} {o : DynamicOptions} {remote : Remote}

theorem Spares.of_core {n' : Node} (h : n'.core = n.core) : Spares r w n n' :=
  .of_eq (congrArg Core.followers h) (congrArg Core.store h)

theorem spares_endAttempt (stage : Stage) (n : Node) : Spares r w n (n.endAttempt a i stage) :=
  .of_eq rfl rfl

theorem spares_fail (hremote : remote ≠ .watch w) (e : Error) (n : Node) :
    Spares r w n (n.fail a i remote e) := by
  have hclosed : Spares r w n (n.closeRemote remote) :=
    .of_changes (changes_closeRemote remote n) (leads_closeRemote hremote n)
  exact (hclosed.trans (spares_dropRemote remote _)).trans (spares_endAttempt _ _)

theorem spares_build (hremote : remote ≠ .watch w) (first : Option (Value × Topology)) (n : Node) :
    Spares r w n (n.build a i o remote first) := by
  have hcore := core_createInstruments o.exposition o.scope n
  have hstep := build_step a i o remote first n
  generalize n.build a i o remote first = built at hstep ⊢
  cases hstep with
  | @fails m cause hmade =>
    rw [hmade] at hcore
    have hm : Spares r w n m := .of_core hcore
    exact (hm.trans (.of_changes (changes_tell _ m) (.refl m.store))).trans
      (spares_fail hremote _ _)
  | @founds m instruments f hmade _ =>
    rw [hmade] at hcore
    have hm : Spares r w n m := .of_core hcore
    let k : Node := { m with followers := m.followers ++ [f] }
    let built : Node := ((k.addTask (.updates m.followers.length)).addTask
      (.samples m.followers.length)).modifyInitializer i fun x =>
        { x with registry := some m.followers.length }
    have hk : Spares r w m k := by
      refine ⟨fun g hg => ⟨g, ?_, .refl g⟩, Or.inr (.refl m.store)⟩
      exact (List.getElem?_append_left (List.getElem?_eq_some_iff.mp hg).1).trans hg
    have hbuilt : Spares r w k built := .of_eq rfl rfl
    exact ((hm.trans hk).trans hbuilt).trans (spares_endAttempt _ built)

theorem spares_conclude (hsole : n.Sole r w) (hremote : remote ≠ .watch w) :
    Spares r w n (n.conclude a i o remote) := by
  have hread := spares_readRemote hsole remote
  have hstep := conclude_step a i o remote n
  generalize n.conclude a i o remote = m at hstep ⊢
  refine hread.trans ?_
  cases hstep with
  | builds _ _ | empty _ _ => exact spares_build hremote _ _
  | invalid _ _ | absent _ _ =>
    exact (Spares.of_changes (changes_tell _ _) (.refl _)).trans (spares_fail hremote _ _)

theorem spares_await (hsole : n.Sole r w) (hremote : remote ≠ .watch w) (deadline : Nat) :
    Spares r w n (n.await a i o remote deadline) := by
  have htake : Spares r w n (n.takeSignal remote).1 := spares_takeSignal hremote
  have hsole : (n.takeSignal remote).1.Sole r w := hsole.congr (followers_takeSignal remote n)
  have htell (notices : List Notice) :
      Spares r w (n.takeSignal remote).1 ((n.takeSignal remote).1.tell notices) :=
    .of_changes (changes_tell notices _) (.refl _)
  have hstep := await_step a i o remote deadline n
  generalize n.await a i o remote deadline = m at hstep ⊢
  refine htake.trans ?_
  cases hstep with
  | changed _ => exact spares_conclude hsole hremote
  | ended _ => exact (htell _).trans (spares_conclude (hsole.congr rfl) hremote)
  | late _ _ => exact (htell _).trans (spares_fail hremote _ _)
  | waits _ _ => exact .of_eq rfl rfl

/-- A call that starts to follow a key gets a watch that nobody had. -/
theorem spares_follow {client : Client} {key : String} (hlt : w < n.store.watches.length)
    (h : n.follow client key = .ok (m, remote)) : Spares r w n m ∧ remote ≠ .watch w := by
  have hchanges := changes_follow (C := fun _ => True) h
  cases follow_step h with
  | store =>
    refine ⟨.of_changes hchanges (.of (e := .watch key) rfl n.store), fun hremote => ?_⟩
    have hnew : (n.store.watch key).2 = w := Remote.watch.inj hremote
    rw [Store.watch_snd] at hnew
    exact Nat.ne_of_gt hlt hnew
  | service _ => exact ⟨.of_eq rfl rfl, by simp⟩

theorem spares_takeTurn (hsole : n.Sole r w) (hlt : w < n.store.watches.length) (x : Initializer) :
    Spares r w n (n.takeTurn a i x) := by
  have hstep := turn_step a i x n
  generalize n.takeTurn a i x = m at hstep ⊢
  cases hstep with
  | stands _ | invalid _ _ | unfollowed _ _ _ _ => exact spares_endAttempt _ n
  | concludes _ _ _ hf _ =>
    obtain ⟨hfollow, hremote⟩ := spares_follow hlt hf
    exact hfollow.trans (spares_conclude (hsole.congr (followers_follow hf)) hremote)
  | awaits _ _ _ hf _ =>
    obtain ⟨hfollow, hremote⟩ := spares_follow hlt hf
    exact hfollow.trans (spares_await (hsole.congr (followers_follow hf)) hremote _)

theorem spares_stepAttempt (hsole : n.Sole r w) (hlt : w < n.store.watches.length)
    (hcall : ¬ n.Holds (.call a) w) : Spares r w n (n.stepAttempt a) := by
  have hturned := turned_stepAttempt a n
  generalize n.stepAttempt a = m at hturned ⊢
  cases hturned with
  | stays => exact .of_eq rfl rfl
  | ends | queues _ _ _ _ => exact .of_eq rfl rfl
  | @abandons x _ _ =>
    unfold abandon
    cases x.stage with
    | waiting remote deadline => exact (spares_dropRemote remote n).trans (spares_endAttempt _ _)
    | fresh | queued | finished _ | abandoned => exact spares_endAttempt _ n
  | @takes x y m _ _ hm =>
    have hreached : Spares r w n m ∧ m.Sole r w ∧ w < m.store.watches.length := by
      cases hm with
      | fresh _ _ => exact ⟨.of_eq rfl rfl, hsole, hlt⟩
      | queued _ _ => exact ⟨.of_eq rfl rfl, hsole, hlt⟩
    exact hreached.1.trans (spares_takeTurn hreached.2.1 hreached.2.2 y)
  | @resumes x y remote deadline hx _ hstage =>
    refine spares_await hsole (fun hremote => hcall ⟨x, hx, ?_⟩) deadline
    rw [hstage]
    exact congrArg some hremote

end Calls

/-! ### Events -/

theorem store_modifyHub (source : Source) (change : {α : Type} → Hub α → Hub α) (n : Node) :
    (n.modifyHub source change).store = n.store := by
  cases source <;> rfl

theorem store_stepSamples (s : Nat) (n : Node) : (n.stepSamples s).store = n.store := by
  have hstep := sample_step s n
  generalize n.stepSamples s = m at hstep ⊢
  cases hstep <;> rfl

theorem store_stepConsumer (c : Nat) (n : Node) : (n.stepConsumer c).store = n.store := by
  have hstep := consume_step c n
  generalize n.stepConsumer c = m at hstep ⊢
  cases hstep with
  | gone _ => rfl
  | waits _ _ _ | takes _ _ _ | stops _ _ _ => exact store_modifyHub _ _ n

theorem store_watch (source : Source) (n : Node) : (n.occur (.watch source)).store = n.store := by
  have hstep := watch_step source n
  generalize n.occur (.watch source) = m at hstep ⊢
  cases hstep <;> rfl

theorem store_withdrawDynamic (s : Nat) (n : Node) : (n.withdrawDynamic s).store = n.store := by
  unfold withdrawDynamic
  split <;> rfl

/-- What leaves the watch of a registry to the registry, whose update loop has no turn. -/
def Event.isAside (r w : Nat) : Event → Bool
  | .turn (.updates s) => s ≠ r
  | .store e => !e.closes w
  | _ => true

/-- Whatever others do leaves the watch of a registry alone, but for writing to the store and closing the
registry. -/
theorem spares_occur (hn : n.Attached) {f : Follower} (hf : n.followers[r]? = some f)
    (hremote : f.remote = .watch w) {e : Event} (haside : e.isAside r w = true)
    (he : ∀ e', e ≠ .store e') : Spares r w n (n.occur e) := by
  have hholds : n.Holds (.registry r) w := ⟨f, hf, hremote⟩
  have hsole : n.Sole r w := fun s g hg hw =>
    Holder.registry.inj (hn.alone (.registry s) (.registry r) w ⟨g, hg, hw⟩ hholds)
  have hlt := hn.lt_of_holds hholds
  cases e with
  | store e => exact absurd rfl (he e)
  | wake s content => exact spares_wake s content n
  | turn t =>
    -- It does not matter how the tasks stand in line after the step.
    have hqueued {m : Node} (h : Spares r w n m) : Spares r w n (m.dequeue t).refresh :=
      h.trans (.of_eq rfl rfl)
    refine hqueued ?_
    cases t with
    | updates s => exact spares_stepUpdates hsole (of_decide_eq_true haside)
    | samples s => exact .of_store (changes_stepSamples s n) (store_stepSamples s n)
    | consumer c => exact .of_store (changes_stepConsumer c n) (store_stepConsumer c n)
    | attempt a =>
      refine spares_stepAttempt hsole hlt fun hcall => ?_
      cases hn.alone _ _ w hcall hholds
  | addInitializer _ | call _ | spawnInit _ | cancel _ => exact .of_eq rfl rfl
  | feed _ | closeOnRead _ | addMeter _ _ | count _ _ | report _ _ | withdraw _ | register _ _
  | unregister _ _ | addHub _ | publish _ _ | addStatic _ | consume _ _ _ | look _ | join _
  | readNotices | refresh | pass _ => exact .of_core (core_occur rfl n)
  | watch source => exact .of_store (changes_watch source n) (store_watch source n)
  | close source =>
    cases source with
    | hub _ | static _ => exact .of_core (core_close (by simp) n)
    | dynamic s => exact spares_ensureClosed hsole s
  | withdrawDynamic s => exact .of_store (changes_withdrawDynamic s n) (store_withdrawDynamic s n)
  | next source id => exact .of_store (changes_next source id n) (store_modifyHub source _ n)
  | unsubscribe source id =>
    exact .of_store (changes_unsubscribe source id n) (store_modifyHub source _ n)
  | release h =>
    refine .of_changes (changes_release h n) ?_
    refine release_related (R := fun n n' => n.store.Leads (Store.Event.spares w) n'.store)
      (fun n => .refl n.store) (fun _ _ _ => .trans) (fun n i => .of (e := .dropWatch i) rfl n.store)
      (fun n source id => ?_) h n
    rw [unsubscribe, store_modifyHub]
    exact .refl n.store
  | streamEnd s => exact (spares_ensureClosed hsole s).trans (spares_endLoop s _)

/-! ### What the watch shows -/

def put? (key : String) (n : Node) : Event → Option (Option Value)
  | .store e => e.put? key n.store
  | _ => none

def putAlong (key : String) : Node → List Event → List (Option Value)
  | _, [] => []
  | n, e :: es => (n.put? key e).toList ++ putAlong key (n.occur e) es

section Shown

variable {key : String} {v : Store.View}

/-- While the registry is open and its update loop has no turn, its watch shows what is written to the key,
also after the key was closed. -/
theorem shows_occur (h : n.Steady r w key) (hnumbered : n.store.Numbered) {e : Event} (he : n.Allows e)
    (haside : e.isAside r w = true)
    (hopen : ∀ d, (n.occur e).registryAt r = some d → d.closed = false)
    (hends : v.ended = true ∨ e ≠ .store (.closeKey key)) (hv : n.store.Shows w key v) :
    (n.occur e).store.Shows w key ((n.put? key e).toList.foldl Store.View.write v) := by
  obtain ⟨f, hf, hremote, rfl⟩ := h.follower
  by_cases hdirect : ∃ e', e = .store e'
  · obtain ⟨e', rfl⟩ := hdirect
    have htakes : n.store.takes w e' = false :=
      (h.attached.registry r f w hf hremote).takes_eq_false fun htaken =>
        he w htaken (.registry r) ⟨f, hf, hremote⟩
    have hgoes : v.ended = true ∨ e'.ends f.registry.key = false :=
      hends.imp_right fun hne => Bool.eq_false_iff.mpr fun hkey =>
        hne (congrArg Event.store (Store.ends_iff.mp hkey))
    have hcloses : e'.closes w = false := Bool.not_eq_true' _ |>.mp haside
    have hafter := hv.occur h.sound hnumbered e'
    rwa [hv.after_eq_write h.sound hgoes hcloses htakes] at hafter
  · have hindirect (e' : Store.Event) : e ≠ .store e' := fun hsame => hdirect ⟨e', hsame⟩
    have hwritten : n.put? f.registry.key e = none := by
      cases e with
      | store e' => exact absurd rfl (hindirect e')
      | _ => rfl
    have hspares := spares_occur h.attached hf hremote haside hindirect
    have hstore := hspares.store.resolve_left fun hclosed => ?_
    · rw [hwritten]
      exact hv.spared h.sound hnumbered hstore
    · obtain ⟨g, hg, hclosed⟩ := hclosed
      rw [hopen g.registry (registryAt_of_follower hg)] at hclosed
      cases hclosed

theorem shows_run (h : n.Steady r w key) (hnumbered : n.store.Numbered) {es : List Event}
    (hes : n.Orderly es) (haside : ∀ e ∈ es, e.isAside r w = true)
    (hopen : ∀ d, (n.run es).registryAt r = some d → d.closed = false)
    (hends : v.ended = true ∨ .store (.closeKey key) ∉ es) (hv : n.store.Shows w key v) :
    (n.run es).store.Shows w key ((n.putAlong key es).foldl Store.View.write v) := by
  induction es generalizing n v with
  | nil => exact hv
  | cons e es ih =>
    obtain ⟨he, hrest⟩ := List.forall_mem_cons.mp haside
    have hsteady := h.occur hes.1
    -- What is open in the end was open after the first event.
    have hfirst (d : Dynamic) (hd : (n.occur e).registryAt r = some d) : d.closed = false := by
      obtain ⟨ms, hrun⟩ := exists_registryAt_run hd es
      exact open_of_run hd (hsteady.coherent r d hd) hrun (hopen _ hrun)
    have hshows := shows_occur h hnumbered hes.1 he hfirst
      (hends.imp_right fun hkey hsame => hkey (hsame ▸ List.mem_cons_self)) hv
    have hlive : ((n.put? key e).toList.foldl Store.View.write v).ended = v.ended := by
      cases n.put? key e with
      | none => rfl
      | some content => exact Store.View.ended_write v content
    rw [putAlong, List.foldl_append]
    refine ih hsteady (store_occur_of (fun _ e h => h.occur e) hnumbered e) hes.2 hrest hopen ?_ hshows
    rw [hlive]
    exact hends.imp_right fun hkey hmem => hkey (List.mem_cons_of_mem e hmem)

end Shown

end NamespaceTopology.Node
