import NamespaceTopology.Proofs.Node.Requests
import NamespaceTopology.Proofs.Node.Watches

set_option autoImplicit false

/-!
What the registries of a node serve, dynamic and static ones alike, and what is asked of them. Nobody
changes what a static registry serves but those who ask it, and a dynamic registry that is neither written
to nor ended from behind goes with it request by request.
-/
namespace NamespaceTopology

open NamespaceTopology.Dynamic (Move)

/-- What a dynamic registry serves now, as one would that serves nothing else. -/
def Dynamic.asStatic (d : Dynamic) : Static := ⟨d.topology, d.closed, d.hub⟩

namespace Dynamic

theorem watch_asStatic {d : Dynamic} (hd : d.Coherent) :
    d.asStatic.watch = d.watch.map fun (d, id) => (d.asStatic, id) := by
  have heven : d.asStatic.Even := hd.closed
  cases hclosed : d.closed with
  | true =>
    rw [Static.watch_of_closed heven hclosed]
    simp [watch, hclosed, Except.map]
  | false =>
    rw [Static.watch_of_open heven hclosed]
    simp [watch, hclosed, Hub.subscribe, hd.closed.trans hclosed, Except.map, asStatic]

theorem close_asStatic (d : Dynamic) (e : Exposition) :
    d.asStatic.close = (d.close e).map fun p => p.1.asStatic := by
  unfold Static.close close
  change (if d.closed then _ else _) = _
  cases d.closed <;> rfl

end Dynamic

/-- The event that a request is. Most of what is asked changes nothing. -/
def Request.event? (source : Source) : Request → Option Node.Event
  | .watch => some (.watch source)
  | .close => some (.close source)
  | .next id => some (.next source id)
  | .drop id => some (.unsubscribe source id)
  | .namespaces | .get _ | .hasPending _ => none

namespace Node

def reply (source : Source) (n : Node) : Request → Reply
  | .watch => .started ((n.watch source).map Prod.snd)
  | .namespaces => .namespaces (n.topology source)
  | .close => .closed ((n.close source).map fun _ => ())
  | .next id => .delivery (n.next source id).2
  | .get id => .held (n.held source id)
  | .hasPending id => .pending (n.hasPending source id)
  | .drop _ => .dropped

def ask (source : Source) (n : Node) (q : Request) : Node := n.run (q.event? source).toList

variable {n m k : Node}

/-! ### Requests -/

theorem reply_static {s : Nat} {x : Static} (hx : n.statics[s]? = some x) (q : Request) :
    n.reply (.static s) q = x.reply q := by
  cases q with
  | watch =>
    simp only [reply, watch, hx, Static.reply]
    cases x.watch <;> rfl
  | close =>
    simp only [reply, close, hx, Static.reply]
    cases x.close <;> rfl
  | namespaces => simp [reply, topology, hx, Static.reply]
  | next id => simp [reply, next, peek, askHub, hx, Static.reply, Hub.next_snd]
  | get id => simp [reply, held, askHub, hx, Static.reply]
  | hasPending id => simp [reply, hasPending, askHub, hx, Static.reply]
  | drop id => rfl

theorem reply_dynamic {r : Nat} {d : Dynamic} (hd : n.registryAt r = some d) (hco : d.Coherent)
    (q : Request) : n.reply (.dynamic r) q = d.asStatic.reply q := by
  obtain ⟨f, hf, rfl⟩ := Option.map_eq_some_iff.mp hd
  cases q with
  | watch =>
    simp only [reply, watch, hf, Static.reply, Dynamic.watch_asStatic hco]
    cases f.registry.watch <;> rfl
  | close =>
    simp only [reply, close, closeDynamic, hf, Static.reply,
      Dynamic.close_asStatic f.registry (n.exposition f.exposition)]
    cases f.registry.close (n.exposition f.exposition) <;> rfl
  | namespaces => simp [reply, topology, hf, Static.reply, Dynamic.asStatic]
  | next id => simp [reply, next, peek, askHub, hf, Static.reply, Hub.next_snd, Dynamic.asStatic]
  | get id => simp [reply, held, askHub, hf, Static.reply, Dynamic.asStatic]
  | hasPending id => simp [reply, hasPending, askHub, hf, Static.reply, Dynamic.asStatic]
  | drop id => rfl

/-- What a request is for a dynamic registry. -/
theorem registryAt_ask {r : Nat} {d : Dynamic} (hd : n.registryAt r = some d) (hco : d.Coherent)
    (q : Request) : ∃ d', (n.ask (.dynamic r) q).registryAt r = some d' ∧ d'.value = d.value ∧
      d'.asStatic = d.asStatic.after q := by
  cases q with
  | watch =>
    have hafter := registryAt_watch r r n
    rw [if_pos rfl, hd, Option.map_some] at hafter
    refine ⟨_, hafter, ?_⟩
    rw [Static.after, Dynamic.watch_asStatic hco, Dynamic.after]
    cases hw : d.watch with
    | error e => exact ⟨rfl, rfl⟩
    | ok p =>
      obtain ⟨d', id⟩ := p
      obtain ⟨_, hub, _, rfl⟩ := Dynamic.watch_eq_ok hw
      exact ⟨rfl, rfl⟩
  | close =>
    obtain ⟨f, hf, rfl⟩ := Option.map_eq_some_iff.mp hd
    change ∃ d', (n.occur (.close (.dynamic r))).registryAt r = some d' ∧ _
    rw [Static.after, Dynamic.close_asStatic f.registry (n.exposition f.exposition)]
    simp only [occur, close]
    cases hc : n.closeDynamic r with
    | error e =>
      refine ⟨f.registry, hd, rfl, ?_⟩
      rw [Dynamic.close_of_closed (closed_of_closeDynamic hc hd)]
      rfl
    | ok m =>
      obtain ⟨g, d', e, notices, hg, hclose, rfl⟩ := closeDynamic_eq_ok hc
      obtain rfl := Option.some.inj (hf.symm.trans hg)
      obtain ⟨_, hub, instruments, _, _, hd'⟩ := Dynamic.close_eq_ok hco hclose
      refine ⟨d', ?_, by rw [hd'], by rw [hclose]; rfl⟩
      rw [registryAt_closeRemote, registryAt_tell, registryAt_setExposition, registryAt_modifyFollower,
        if_pos rfl, hf]
      rfl
  | next id =>
    have hafter := registryAt_next (.dynamic r) id r n
    rw [if_pos rfl, hd] at hafter
    exact ⟨_, hafter, rfl, rfl⟩
  | drop id =>
    have hafter := registryAt_modifyHub (.dynamic r) (fun h => h.drop id) r n
    rw [if_pos rfl, hd] at hafter
    exact ⟨_, hafter, rfl, rfl⟩
  | namespaces | get _ | hasPending _ => exact ⟨d, hd, rfl, rfl⟩

/-- What a request is for a static registry. -/
theorem statics_ask (s : Nat) (q : Request) (n : Node) :
    (n.ask (.static s) q).statics[s]? = (n.statics[s]?).map fun x => x.after q := by
  cases q with
  | watch =>
    change (n.occur (.watch (.static s))).statics[s]? = _
    simp only [occur, watch]
    cases hx : n.statics[s]? with
    | none => exact hx
    | some x =>
      simp only [Option.map_some, Static.after]
      cases x.watch with
      | error e => exact hx
      | ok p => simp [Except.map, (List.getElem?_eq_some_iff.mp hx).1]
  | close =>
    change (n.occur (.close (.static s))).statics[s]? = _
    simp only [occur, close]
    cases hx : n.statics[s]? with
    | none => exact hx
    | some x =>
      simp only [Option.map_some, Static.after]
      cases x.close with
      | error e => exact hx
      | ok x => simp [Except.map, (List.getElem?_eq_some_iff.mp hx).1]
  | next id => exact List.getElem?_modify_eq _ _ _
  | drop id => exact List.getElem?_modify_eq _ _ _
  | namespaces | get _ | hasPending _ => exact Option.map_id'.symm

/-! ### What events ask -/

def lost (h : Handles) (n : Node) : List (Source × Nat) :=
  n.consumers.zipIdx.filterMap fun (x, c) => x.subscription.bind fun id =>
    if x.done && !h.consumers.contains c then some (x.source, id) else none

/-- What an event asks of a registry: a user does, or a task that consumes a watch. -/
def requests (source : Source) (n : Node) : Event → List Request
  | .watch s => if s = source then [.watch] else []
  | .close s => if s = source then [.close] else []
  | .next s id => if s = source then [.next id] else []
  | .unsubscribe s id => if s = source then [.drop id] else []
  | .turn (.consumer c) => ((n.consumers[c]?).bind fun x => x.subscription.bind fun id =>
    if x.source = source then some (.next id) else none).toList
  | .release h => (n.lost h).filterMap fun (s, id) => if s = source then some (.drop id) else none
  | _ => []

def Event.drives (source : Source) : Event → Bool
  | .turn (.updates r) | .turn (.samples r) | .wake r _ | .streamEnd r | .withdrawDynamic r =>
    source = .dynamic r
  | _ => false

theorem release_eq (h : Handles) (n : Node) : ∃ store, n.release h =
    (n.lost h).foldl (fun n (p : Source × Nat) => n.unsubscribe p.1 p.2) { n with store } := by
  refine ⟨((List.range n.store.watches.length).filter fun w => !n.hasWatch h w).foldl
    (fun s w => s.dropWatch w) n.store, ?_⟩
  rw [lost, List.foldl_filterMap]
  refine List.foldl_ext _ _ _ fun m p _ => ?_
  obtain ⟨x, c⟩ := p
  simp only
  cases x.subscription with
  | none => rfl
  | some id =>
    simp only [Option.bind_some]
    split <;> rfl

/-! ### What nobody is asked for -/

def Stays (source : Source) (n n' : Node) : Prop :=
  match source with
  | .dynamic r => ∀ d, n.registryAt r = some d → n'.registryAt r = some d
  | .static s => n'.statics[s]? = n.statics[s]?
  | .hub _ => True

variable {source : Source}

theorem Stays.of_mem (hregistries : ∀ r d, n.registryAt r = some d → m.registryAt r = some d)
    (hstatics : m.statics = n.statics) : Stays source n m := by
  cases source with
  | dynamic r => exact hregistries r
  | static s => exact congrArg (·[s]?) hstatics
  | hub h => trivial

theorem Stays.of_eq (hregistries : ∀ r, source = .dynamic r → m.registryAt r = n.registryAt r)
    (hstatics : m.statics = n.statics) : Stays source n m := by
  cases source with
  | dynamic r => exact fun d hd => (hregistries r rfl).trans hd
  | static s => exact congrArg (·[s]?) hstatics
  | hub h => trivial

theorem Stays.of_parts (hfollowers : m.followers = n.followers) (hstatics : m.statics = n.statics) :
    Stays source n m := .of_eq (fun r _ => registryAt_congr hfollowers r) hstatics

/-- What happens to one static registry is nothing to the others. -/
theorem Stays.of_other {s : Nat} (hs : .static s ≠ source) (hfollowers : m.followers = n.followers)
    (hstatics : ∀ t, s ≠ t → m.statics[t]? = n.statics[t]?) : Stays source n m := by
  cases source with
  | dynamic r => exact fun d hd => (registryAt_congr hfollowers r).trans hd
  | static t => exact hstatics t fun heq => hs (congrArg Source.static heq)
  | hub h => trivial

theorem Stays.refl (n : Node) : Stays source n n := .of_parts rfl rfl

theorem Stays.trans (h : Stays source n m) (h' : Stays source m k) : Stays source n k := by
  cases source with
  | dynamic r => exact fun d hd => h' d (h d hd)
  | static s => exact Eq.trans h' h
  | hub h => trivial

/-- No read that comes closes the registry. -/
def NotDue (source : Source) (n : Node) : Prop := ∀ r, source = .dynamic r → n.closeOnRead ≠ some r

theorem notDue_static (s : Nat) (n : Node) : n.NotDue (.static s) := by
  intro r hr
  cases hr

theorem NotDue.congr (h : n.NotDue source) (hread : m.closeOnRead = n.closeOnRead) : m.NotDue source :=
  fun r hr => hread ▸ h r hr

theorem stays_closeRemote (remote : Remote) (n : Node) : Stays source n (n.closeRemote remote) := by
  cases remote <;> exact .of_parts rfl rfl

theorem stays_dropRemote (remote : Remote) (n : Node) : Stays source n (n.dropRemote remote) := by
  cases remote <;> exact .of_parts rfl rfl

theorem stays_takeSignal (remote : Remote) (n : Node) : Stays source n (n.takeSignal remote).1 := by
  cases remote <;> exact .of_parts rfl rfl

theorem stays_modifyFollower {r : Nat} (hr : source ≠ .dynamic r) (f : Follower → Follower) (n : Node) :
    Stays source n (n.modifyFollower r f) := by
  refine .of_eq (fun s hs => ?_) rfl
  rw [registryAt_modifyFollower, if_neg]
  rintro rfl
  exact hr hs

theorem stays_closeDynamic {r : Nat} (hr : source ≠ .dynamic r) (h : n.closeDynamic r = .ok m) :
    Stays source n m := by
  obtain ⟨f, d, e, notices, _, _, rfl⟩ := closeDynamic_eq_ok h
  let closed := ((n.modifyFollower r fun f => { f with registry := d }).setExposition f.exposition
    e).tell notices
  have hclosed : Stays source n closed := (stays_modifyFollower hr _ n).trans (.of_parts rfl rfl)
  exact hclosed.trans (stays_closeRemote f.remote closed)

theorem stays_withdrawDynamic {r : Nat} (hr : source ≠ .dynamic r) (n : Node) :
    Stays source n (n.withdrawDynamic r) := by
  unfold withdrawDynamic
  split
  next => exact .refl n
  next => exact (stays_modifyFollower hr _ n).trans (.of_parts rfl rfl)

theorem stays_ensureClosed {r : Nat} (hr : source ≠ .dynamic r) (n : Node) :
    Stays source n (n.ensureClosed r) := by
  unfold ensureClosed
  split
  next m hm => exact stays_closeDynamic hr hm
  next => exact .refl n

/-- To read may close the registry that is due to be closed then. -/
theorem stays_readRemote (hdue : n.NotDue source) (remote : Remote) :
    Stays source n (n.readRemote remote).1 := by
  have hstep := read_step remote n
  generalize (n.readRemote remote).1 = m at hstep ⊢
  cases hstep with
  | watch | feed _ => exact .of_parts rfl rfl
  | @closes r hr =>
    let read : Node := { n with
      feed := { n.feed with reads := n.feed.reads + 1 }
      closeOnRead := none }
    have hread : Stays source n read := .of_parts rfl rfl
    refine hread.trans (stays_ensureClosed ?_ read)
    rintro rfl
    exact hdue r rfl hr

theorem stays_endLoop (r : Nat) (n : Node) : Stays source n (n.endLoop r) :=
  .of_eq (fun s _ => registryAt_endLoop r s n) rfl

theorem stays_wake {r : Nat} (hr : source ≠ .dynamic r) (content : Option Value) (n : Node) :
    Stays source n (n.wake r content) := by
  unfold wake
  split
  · exact .refl n
  · exact (stays_modifyFollower hr _ n).trans (.of_parts rfl rfl)

theorem closeOnRead_takeSignal (remote : Remote) (n : Node) :
    (n.takeSignal remote).1.closeOnRead = n.closeOnRead := by
  cases remote <;> rfl

theorem stays_stepUpdates (hdue : n.NotDue source) {r : Nat}
    (hr : source ≠ .dynamic r) : Stays source n (n.stepUpdates r) := by
  have htake {remote : Remote} : Stays source n (n.takeSignal remote).1 := stays_takeSignal remote n
  have hdue {remote : Remote} : (n.takeSignal remote).1.NotDue source :=
    hdue.congr (closeOnRead_takeSignal remote n)
  have hstep := update_step r n
  generalize n.stepUpdates r = m at hstep ⊢
  cases hstep with
  | gone _ => exact .of_parts rfl rfl
  | ends _ _ => exact stays_endLoop r n
  | waits _ _ _ => exact htake
  | ended _ _ _ => exact (htake.trans (stays_ensureClosed hr _)).trans (stays_endLoop r _)
  | @wakes f _ _ _ => exact (htake.trans (stays_readRemote hdue f.remote)).trans (stays_wake hr _ _)

theorem stays_stepSamples {r : Nat} (hr : source ≠ .dynamic r) (n : Node) :
    Stays source n (n.stepSamples r) := by
  have hstep := sample_step r n
  generalize n.stepSamples r = m at hstep ⊢
  cases hstep with
  | gone _ | waits _ _ _ => exact .of_parts rfl rfl
  | ends _ _ => exact (stays_modifyFollower hr _ n).trans (.of_parts rfl rfl)
  | samples _ _ _ => exact stays_modifyFollower hr _ n

theorem stays_modifyHub {source' : Source} (hs : source' ≠ source)
    (change : {α : Type} → Hub α → Hub α) (n : Node) : Stays source n (n.modifyHub source' change) := by
  cases source' with
  | hub h => exact .of_parts rfl rfl
  | dynamic r => exact stays_modifyFollower (Ne.symm hs) _ n
  | static s => exact .of_other hs rfl fun _ hst => List.getElem?_modify_ne _ _ hst

theorem stays_unsubscribes {ps : List (Source × Nat)} (hps : ∀ p ∈ ps, p.1 ≠ source) (n : Node) :
    Stays source n (ps.foldl (fun n (p : Source × Nat) => n.unsubscribe p.1 p.2) n) := by
  induction ps generalizing n with
  | nil => exact .refl n
  | cons p ps ih =>
    obtain ⟨hp, hps⟩ := List.forall_mem_cons.mp hps
    exact (stays_modifyHub hp (fun h => h.drop p.2) n).trans (ih hps _)

/-! ### Calls -/

section Calls

variable {a i : Nat} {o : DynamicOptions} {remote : Remote}

theorem stays_endAttempt (stage : Stage) (n : Node) : Stays source n (n.endAttempt a i stage) :=
  .of_parts rfl rfl

theorem stays_fail (remote : Remote) (e : Error) (n : Node) :
    Stays source n (n.fail a i remote e) :=
  ((stays_closeRemote remote n).trans (stays_dropRemote remote _)).trans (stays_endAttempt _ _)

theorem stays_tell (notices : List Notice) (n : Node) : Stays source n (n.tell notices) :=
  .of_parts rfl rfl

theorem stays_build (remote : Remote) (first : Option (Value × Topology)) (n : Node) :
    Stays source n (n.build a i o remote first) := by
  have hmade : Stays source n (n.createInstruments o.exposition o.scope).1 := .of_parts rfl rfl
  have hstep := build_step a i o remote first n
  generalize n.build a i o remote first = last at hstep ⊢
  cases hstep with
  | fails hc =>
    rw [hc] at hmade
    exact (hmade.trans (stays_tell _ _)).trans (stays_fail remote _ _)
  | @founds m instruments f hc _ =>
    rw [hc] at hmade
    let k : Node := { m with followers := m.followers ++ [f] }
    let built : Node := ((k.addTask (.updates m.followers.length)).addTask
      (.samples m.followers.length)).modifyInitializer i fun x =>
        { x with registry := some m.followers.length }
    have hk : Stays source m k := by
      refine .of_mem (fun r d hd => ?_) rfl
      obtain ⟨g, hg, rfl⟩ := Option.map_eq_some_iff.mp hd
      have hlt := (List.getElem?_eq_some_iff.mp hg).1
      exact registryAt_of_follower ((List.getElem?_append_left hlt).trans hg)
    have hbuilt : Stays source k built := .of_parts rfl rfl
    exact ((hmade.trans hk).trans hbuilt).trans (stays_endAttempt _ built)

theorem stays_conclude (hdue : n.NotDue source) (remote : Remote) :
    Stays source n (n.conclude a i o remote) := by
  have hstep := conclude_step a i o remote n
  generalize n.conclude a i o remote = m at hstep ⊢
  refine (stays_readRemote hdue remote).trans ?_
  cases hstep with
  | builds _ _ | empty _ _ => exact stays_build remote _ _
  | invalid _ _ | absent _ _ => exact (stays_tell _ _).trans (stays_fail remote _ _)

theorem stays_await (hdue : n.NotDue source) (remote : Remote)
    (deadline : Nat) : Stays source n (n.await a i o remote deadline) := by
  have hdue : (n.takeSignal remote).1.NotDue source := hdue.congr (closeOnRead_takeSignal remote n)
  have htold (notices : List Notice) : ((n.takeSignal remote).1.tell notices).NotDue source :=
    hdue.congr rfl
  have hstep := await_step a i o remote deadline n
  generalize n.await a i o remote deadline = m at hstep ⊢
  refine (stays_takeSignal remote n).trans ?_
  cases hstep with
  | changed _ => exact stays_conclude hdue remote
  | ended _ => exact (stays_tell _ _).trans (stays_conclude (htold _) remote)
  | late _ _ => exact (stays_tell _ _).trans (stays_fail remote _ _)
  | waits _ _ => exact .of_parts rfl rfl

theorem stays_follow {client : Client} {key : String} (h : n.follow client key = .ok (m, remote)) :
    Stays source n m ∧ m.closeOnRead = n.closeOnRead := by
  cases follow_step h <;> exact ⟨.of_parts rfl rfl, rfl⟩

theorem stays_takeTurn (hdue : n.NotDue source) (x : Initializer) :
    Stays source n (n.takeTurn a i x) := by
  have hstep := turn_step a i x n
  generalize n.takeTurn a i x = k at hstep ⊢
  cases hstep with
  | stands _ | invalid _ _ | unfollowed _ _ _ _ => exact stays_endAttempt _ n
  | concludes _ _ _ hf _ =>
    obtain ⟨hfollow, hread⟩ := stays_follow hf
    exact hfollow.trans (stays_conclude (hdue.congr hread) _)
  | awaits _ _ _ hf _ =>
    obtain ⟨hfollow, hread⟩ := stays_follow hf
    exact hfollow.trans (stays_await (hdue.congr hread) _ _)

theorem stays_stepAttempt (hdue : n.NotDue source) (a : Nat) :
    Stays source n (n.stepAttempt a) := by
  have hturned := turned_stepAttempt a n
  generalize n.stepAttempt a = m at hturned ⊢
  cases hturned with
  | stays => exact .refl n
  | ends | queues _ _ _ _ => exact .of_parts rfl rfl
  | @abandons x _ _ =>
    unfold abandon
    cases x.stage with
    | waiting remote deadline => exact (stays_dropRemote remote n).trans (stays_endAttempt _ _)
    | fresh | queued | finished _ | abandoned => exact stays_endAttempt _ n
  | @takes x y m _ _ hm =>
    cases hm with
    | fresh _ _ =>
      let queued := n.modifyInitializer x.initializer fun y => { y with queue := y.queue ++ [a] }
      have hqueued : Stays source n queued ∧ queued.NotDue source := ⟨.of_parts rfl rfl, hdue.congr rfl⟩
      exact hqueued.1.trans (stays_takeTurn hqueued.2 y)
    | queued _ _ => exact stays_takeTurn hdue y
  | @resumes x y remote deadline _ _ _ => exact stays_await hdue remote deadline

end Calls

/-! ### Events -/

theorem statics_addMeter (exposition scope : String) (n : Node) :
    (n.addMeter exposition scope).1.statics = n.statics := by
  have hmade : (n.createInstruments exposition scope).1.statics = n.statics := rfl
  unfold addMeter
  rcases hc : n.createInstruments exposition scope with ⟨m, made⟩
  rw [hc] at hmade
  cases made <;> exact hmade

theorem statics_withdraw (m : Nat) (n : Node) : (n.withdraw m).statics = n.statics := by
  unfold withdraw
  split <;> rfl

theorem statics_unregister (exposition : String) (c : Collector) (n : Node) :
    (n.unregister exposition c).1.statics = n.statics := by
  unfold unregister
  split <;> rfl

theorem statics_look (c : Nat) (n : Node) : (n.look c).1.statics = n.statics := by
  unfold look
  split <;> rfl

theorem statics_join (c : Nat) (n : Node) : (n.join c).1.statics = n.statics := by
  unfold join
  split <;> rfl

/-- What leaves alone that which registries live from leaves alone the static ones that there are. -/
theorem stays_of_sparesCore {e : Event} (he : e.sparesCore = true)
    (hnew : ∀ s t, source = .static s → e ≠ .addStatic t) (n : Node) : Stays source n (n.occur e) := by
  have hfollowers := congrArg Core.followers (core_occur he n)
  cases e with
  | addStatic t =>
    cases source with
    | dynamic r => exact fun d hd => hd
    | static s => exact absurd rfl (hnew s t rfl)
    | hub h => trivial
  | feed _ | closeOnRead _ | count _ _ | report _ _ | addHub _ | consume _ _ _ | readNotices | refresh
  | pass _ => exact .of_parts rfl rfl
  | addMeter exposition scope => exact .of_parts hfollowers (statics_addMeter exposition scope n)
  | withdraw m => exact .of_parts hfollowers (statics_withdraw m n)
  | unregister exposition c => exact .of_parts hfollowers (statics_unregister exposition c n)
  | look c => exact .of_parts hfollowers (statics_look c n)
  | join c => exact .of_parts hfollowers (statics_join c n)
  | register exposition c =>
    rcases register_cases exposition c n with h | ⟨_, _, h⟩ <;> rw [h] <;> exact .of_parts rfl rfl
  | publish h s =>
    rcases publish_cases h s n with heq | ⟨_, _, _, _, heq⟩ <;> rw [heq] <;> exact .of_parts rfl rfl
  | _ => cases he

theorem stays_stepConsumer (c : Nat) (hc : n.requests source (.turn (.consumer c)) = []) :
    Stays source n (n.stepConsumer c) := by
  simp only [requests, Option.toList_eq_nil_iff] at hc
  have hother {x : Consumer} {id : Nat} (hx : n.consumers[c]? = some x)
      (hid : x.subscription = some id) : Stays source n (n.next x.source id).1 := by
    rw [hx, Option.bind_some, hid, Option.bind_some] at hc
    refine stays_modifyHub (fun hs => ?_) _ n
    simp [hs] at hc
  have hstep := consume_step c n
  generalize n.stepConsumer c = m at hstep ⊢
  cases hstep with
  | gone _ => exact .of_parts rfl rfl
  | waits hx hid _ => exact hother hx hid
  | takes hx hid _ | stops hx hid _ => exact (hother hx hid).trans (.of_parts rfl rfl)

theorem stays_watch {source' : Source} (hs : source' ≠ source) (n : Node) :
    Stays source n (n.occur (.watch source')) := by
  have hstep := watch_step source' n
  generalize n.occur (.watch source') = m at hstep ⊢
  cases hstep with
  | refused _ | hub _ _ => exact .of_parts rfl rfl
  | dynamic _ _ => exact stays_modifyFollower (Ne.symm hs) _ n
  | static _ _ => exact .of_other hs rfl fun _ hst => List.getElem?_set_ne hst

theorem stays_close {source' : Source} (hs : source' ≠ source) (n : Node) :
    Stays source n (n.occur (.close source')) := by
  have hstep := close_step source' n
  generalize n.occur (.close source') = m at hstep ⊢
  cases hstep with
  | refused _ | hub _ _ => exact .of_parts rfl rfl
  | dynamic hc => exact stays_closeDynamic (Ne.symm hs) hc
  | static _ _ => exact .of_other hs rfl fun _ hst => List.getElem?_set_ne hst

/-- Whatever asks nothing of a registry and does not drive it leaves what it serves alone. -/
theorem stays_occur {e : Event} (he : n.requests source e = []) (hdrives : e.drives source = false)
    (hnew : ∀ s t, source = .static s → e ≠ .addStatic t) (hdue : n.NotDue source) :
    Stays source n (n.occur e) := by
  cases e with
  | store _ | addInitializer _ | call _ | spawnInit _ | cancel _ => exact .of_parts rfl rfl
  | feed _ | closeOnRead _ | addMeter _ _ | count _ _ | report _ _ | withdraw _ | register _ _
  | unregister _ _ | addHub _ | publish _ _ | addStatic _ | consume _ _ _ | look _ | join _
  | readNotices | refresh | pass _ => exact stays_of_sparesCore rfl hnew n
  | watch s => exact stays_watch (fun hs => by simp [requests, hs] at he) n
  | close s => exact stays_close (fun hs => by simp [requests, hs] at he) n
  | next s id => exact stays_modifyHub (fun hs => by simp [requests, hs] at he) _ n
  | unsubscribe s id => exact stays_modifyHub (fun hs => by simp [requests, hs] at he) _ n
  | release h =>
    obtain ⟨store, hrelease⟩ := release_eq h n
    have hdropped : Stays source n { n with store } := .of_parts rfl rfl
    simp only [occur, hrelease]
    refine hdropped.trans (stays_unsubscribes (fun p hp hs => ?_) _)
    have hnone := List.filterMap_eq_nil_iff.mp he p hp
    simp [hs] at hnone
  | streamEnd r =>
    have hr : source ≠ .dynamic r := by simpa [Event.drives] using hdrives
    exact (stays_ensureClosed hr n).trans (stays_endLoop r _)
  | wake r content => exact stays_wake (by simpa [Event.drives] using hdrives) content n
  | withdrawDynamic r => exact stays_withdrawDynamic (by simpa [Event.drives] using hdrives) n
  | turn t =>
    -- It does not matter how the tasks stand in line after the step.
    have hqueued {m : Node} (h : Stays source n m) : Stays source n (m.dequeue t).refresh :=
      h.trans (.of_parts rfl rfl)
    refine hqueued ?_
    cases t with
    | updates r => exact stays_stepUpdates hdue (by simpa [Event.drives] using hdrives)
    | samples r => exact stays_stepSamples (by simpa [Event.drives] using hdrives) n
    | attempt a => exact stays_stepAttempt hdue a
    | consumer c => exact stays_stepConsumer c he

/-! ### Static registries -/

theorem statics_unsubscribes (s : Nat) (ps : List (Source × Nat)) (n : Node) :
    (ps.foldl (fun n (p : Source × Nat) => n.unsubscribe p.1 p.2) n).statics[s]? =
      (n.statics[s]?).map fun x => x.run (ps.filterMap fun (source, id) =>
        if source = .static s then some (.drop id) else none) := by
  induction ps generalizing n with
  | nil => exact Option.map_id'.symm
  | cons p ps ih =>
    obtain ⟨source, id⟩ := p
    rw [List.foldl_cons, ih]
    by_cases hs : source = .static s
    · subst hs
      have hdrop := statics_ask s (.drop id) n
      rw [show (n.unsubscribe (.static s) id).statics[s]? = _ from hdrop, Option.map_map]
      simp [Function.comp_def, Static.run]
    · have hstays : Stays (.static s) n (n.unsubscribe source id) := stays_modifyHub hs _ n
      rw [show (n.unsubscribe source id).statics[s]? = _ from hstays]
      simp [hs]

theorem statics_stepConsumer (c s : Nat) (n : Node) : (n.stepConsumer c).statics[s]? =
    (n.statics[s]?).map fun x => x.run (n.requests (.static s) (.turn (.consumer c))) := by
  by_cases hnone : n.requests (.static s) (.turn (.consumer c)) = []
  · have hstays : Stays (.static s) n (n.stepConsumer c) := stays_stepConsumer c hnone
    rw [hnone, show (n.stepConsumer c).statics[s]? = _ from hstays]
    exact Option.map_id'.symm
  · have hstep := consume_step c n
    generalize n.stepConsumer c = m at hstep ⊢
    have hasks {x : Consumer} {id : Nat} (hx : n.consumers[c]? = some x)
        (hid : x.subscription = some id) :
        x.source = .static s ∧ n.requests (.static s) (.turn (.consumer c)) = [.next id] := by
      by_cases hs : x.source = .static s
      · exact ⟨hs, by simp [requests, hx, hid, hs]⟩
      · simp [requests, hx, hid, hs] at hnone
    cases hstep with
    | gone hx =>
      cases hc : n.consumers[c]? with
      | none => simp [requests, hc] at hnone
      | some x =>
        have hid : x.subscription = none := by simpa [hc] using hx
        simp [requests, hc, hid] at hnone
    | @waits x id hx hid _ | @takes x id _ hx hid _ | @stops x id _ hx hid _ =>
      obtain ⟨hs, hrequests⟩ := hasks hx hid
      have hnext : (n.next x.source id).1.statics[s]? = (n.statics[s]?).map fun x => x.after (.next id) := by
        rw [hs]
        exact statics_ask s (.next id) n
      rw [hrequests]
      exact hnext

/-- Whatever happens, those who ask a static registry do what they ask for, and nobody else changes it. -/
theorem statics_occur (s : Nat) (e : Event) (n : Node) :
    (n.occur e).statics[s]? = (n.statics[s]?).map (fun x => x.run (n.requests (.static s) e)) ∨
    n.statics[s]? = none ∧ ∃ t, e = .addStatic t ∧ (n.occur e).statics[s]? = some (.start t) := by
  by_cases hadds : ∃ t, e = .addStatic t
  · obtain ⟨t, rfl⟩ := hadds
    simp only [occur, addStatic, List.getElem?_append]
    by_cases hs : s < n.statics.length
    · left
      rw [if_pos hs]
      exact Option.map_id'.symm
    · by_cases hlast : s = n.statics.length
      · exact Or.inr ⟨by simp [hlast], t, rfl, by simp [hlast]⟩
      · left
        rw [if_neg hs, List.getElem?_eq_none (by simp; omega), List.getElem?_eq_none (by omega)]
        rfl
  have hnew (t : Topology) : e ≠ .addStatic t := fun ht => hadds ⟨t, ht⟩
  have hquiet (hnone : n.requests (.static s) e = []) :
      (n.occur e).statics[s]? = (n.statics[s]?).map fun x => x.run (n.requests (.static s) e) := by
    have hdrives : e.drives (.static s) = false := by
      cases e with
      | turn t => cases t <;> simp [Event.drives]
      | _ => simp [Event.drives]
    have hstays : Stays (.static s) n (n.occur e) :=
      stays_occur hnone hdrives (fun _ t _ => hnew t) (notDue_static s n)
    rw [hnone, show (n.occur e).statics[s]? = _ from hstays]
    exact Option.map_id'.symm
  have hask (source : Source) (q : Request) (hq : n.requests (.static s) e =
      if source = .static s then [q] else [])
      (hocc : source = .static s → n.occur e = n.ask (.static s) q) :
      (n.occur e).statics[s]? = (n.statics[s]?).map fun x => x.run (n.requests (.static s) e) := by
    by_cases hs : source = .static s
    · rw [hq, if_pos hs, hocc hs]
      exact statics_ask s q n
    · exact hquiet (hq.trans (if_neg hs))
  left
  cases e with
  | watch source => exact hask source .watch rfl fun hs => hs ▸ rfl
  | close source => exact hask source .close rfl fun hs => hs ▸ rfl
  | next source id => exact hask source (.next id) rfl fun hs => hs ▸ rfl
  | unsubscribe source id => exact hask source (.drop id) rfl fun hs => hs ▸ rfl
  | release h =>
    obtain ⟨store, hrelease⟩ := release_eq h n
    simp only [occur, hrelease]
    exact statics_unsubscribes s (n.lost h) { n with store }
  | turn t =>
    cases t with
    | consumer c => exact statics_stepConsumer c s n
    | updates _ | samples _ | attempt _ => exact hquiet rfl
  | _ => exact hquiet rfl

def AllEven (n : Node) : Prop := ∀ (s : Nat) (x : Static), n.statics[s]? = some x → x.Even

theorem allEven_start : start.AllEven := by
  intro s x hx
  simp [start] at hx

theorem AllEven.occur (hn : n.AllEven) (e : Event) : (n.occur e).AllEven := by
  intro s x hx
  rcases statics_occur s e n with hasked | ⟨_, t, _, hnew⟩
  · rw [hasked] at hx
    obtain ⟨y, hy, rfl⟩ := Option.map_eq_some_iff.mp hx
    exact (hn s y hy).run _
  · obtain rfl := Option.some.inj (hnew.symm.trans hx)
    exact Static.even_start t

theorem AllEven.run (hn : n.AllEven) (es : List Event) : (n.run es).AllEven := by
  induction es generalizing n with
  | nil => exact hn
  | cons e es ih => exact ih (hn.occur e)

end Node

end NamespaceTopology
