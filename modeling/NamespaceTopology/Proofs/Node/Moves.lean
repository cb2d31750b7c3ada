import NamespaceTopology.Proofs.Node.Actions
import NamespaceTopology.Proofs.Registry.Coherence

set_option autoImplicit false

/-!
What each event does to the registries of a node: one that is there ends something, if anything, and
then makes one move at most, and a new one has just started from what its first content describes.
-/
namespace NamespaceTopology

open NamespaceTopology.Dynamic (Move)

namespace Node

def registryAt (r : Nat) (n : Node) : Option Dynamic := (n.followers[r]?).map Follower.registry

theorem registryAt_of_follower {r : Nat} {n : Node} {f : Follower} (hf : n.followers[r]? = some f) :
    n.registryAt r = some f.registry := congrArg (Option.map Follower.registry) hf

theorem registryAt_congr {n n' : Node} (h : n'.followers = n.followers) (r : Nat) :
    n'.registryAt r = n.registryAt r := by
  unfold registryAt
  rw [h]

theorem topology_of_registryAt {r : Nat} {n : Node} {d : Dynamic} (hd : n.registryAt r = some d) :
    n.topology (.dynamic r) = d.topology := by
  obtain ⟨f, hf, rfl⟩ := Option.map_eq_some_iff.mp hd
  simp [topology, hf]

theorem registryAt_modifyFollower (s r : Nat) (f : Follower → Follower) (n : Node) :
    (n.modifyFollower s f).registryAt r =
      if s = r then (n.followers[r]?).map fun x => (f x).registry else n.registryAt r := by
  unfold registryAt modifyFollower
  by_cases h : s = r
  · subst h
    rw [List.getElem?_modify_eq, if_pos rfl]
    exact Option.map_map ..
  · rw [List.getElem?_modify_ne _ _ h, if_neg h]

/-- A change of a follower that leaves its registry alone. -/
theorem registryAt_modifyFollower_of_eq {s : Nat} {f : Follower → Follower}
    (hf : ∀ x, (f x).registry = x.registry) (r : Nat) (n : Node) :
    (n.modifyFollower s f).registryAt r = n.registryAt r := by
  rw [registryAt_modifyFollower]
  split
  · simp only [hf]
    rfl
  · rfl

@[simp] theorem registryAt_tell (notices : List Notice) (r : Nat) (n : Node) :
    (n.tell notices).registryAt r = n.registryAt r := rfl

@[simp] theorem registryAt_setExposition (name : String) (e : Exposition) (r : Nat) (n : Node) :
    (n.setExposition name e).registryAt r = n.registryAt r := rfl

@[simp] theorem registryAt_endTask (t : Task) (r : Nat) (n : Node) :
    (n.endTask t).registryAt r = n.registryAt r := rfl

/-! ### What most events leave alone -/

/-- The parts of a node that registries live from: the store, the registries with their tasks, and the
calls that build them. -/
structure Core where
  store : Store
  followers : List Follower
  attempts : List Attempt
  initializers : List Initializer

def core (n : Node) : Core := ⟨n.store, n.followers, n.attempts, n.initializers⟩

theorem core_createInstruments (exposition scope : String) (n : Node) :
    (n.createInstruments exposition scope).1.core = n.core := rfl

theorem core_addMeter (exposition scope : String) (n : Node) :
    (n.addMeter exposition scope).1.core = n.core := by
  have h := core_createInstruments exposition scope n
  unfold addMeter
  rcases hc : n.createInstruments exposition scope with ⟨m, made⟩
  rw [hc] at h
  cases made <;> exact h

theorem core_withdraw (m : Nat) (n : Node) : (n.withdraw m).core = n.core := by
  unfold withdraw
  split <;> rfl

theorem core_register (exposition : String) (c : Collector) (n : Node) :
    (n.occur (.register exposition c)).core = n.core := by
  rcases register_cases exposition c n with h | ⟨_, _, h⟩ <;> exact (congrArg core h).trans rfl

theorem core_unregister (exposition : String) (c : Collector) (n : Node) :
    (n.unregister exposition c).1.core = n.core := by
  unfold unregister
  split <;> rfl

theorem core_publish (h : Nat) (s : String) (n : Node) :
    (n.occur (.publish h s)).core = n.core := by
  rcases publish_cases h s n with heq | ⟨_, _, _, _, heq⟩ <;> exact (congrArg core heq).trans rfl

theorem core_look (c : Nat) (n : Node) : (n.look c).1.core = n.core := by
  unfold look
  split <;> rfl

theorem core_join (c : Nat) (n : Node) : (n.join c).1.core = n.core := by
  unfold join
  split <;> rfl

def Event.sparesCore : Event → Bool
  | .feed _ | .closeOnRead _ | .addMeter _ _ | .count _ _ | .report _ _ | .withdraw _ | .register _ _
  | .unregister _ _ | .addHub _ | .publish _ _ | .addStatic _ | .consume _ _ _ | .look _ | .join _
  | .readNotices | .refresh | .pass _ => true
  | _ => false

theorem core_occur {e : Event} (he : e.sparesCore = true) (n : Node) : (n.occur e).core = n.core := by
  cases e with
  | feed _ | closeOnRead _ | count _ _ | report _ _ | addHub _ | addStatic _ | consume _ _ _
  | readNotices | refresh | pass _ => rfl
  | addMeter exposition scope => exact core_addMeter exposition scope n
  | withdraw m => exact core_withdraw m n
  | register exposition c => exact core_register exposition c n
  | unregister exposition c => exact core_unregister exposition c n
  | publish h s => exact core_publish h s n
  | look c => exact core_look c n
  | join c => exact core_join c n
  | _ => cases he

/-- To watch something that follows no key. -/
theorem core_watch {source : Source} (hs : ∀ r, source ≠ .dynamic r) (n : Node) :
    (n.occur (.watch source)).core = n.core := by
  have hstep := watch_step source n
  generalize n.occur (.watch source) = m at hstep ⊢
  cases hstep with
  | dynamic _ _ => exact absurd rfl (hs _)
  | refused _ | static _ _ | hub _ _ => rfl

theorem core_close {source : Source} (hs : ∀ r, source ≠ .dynamic r) (n : Node) :
    (n.occur (.close source)).core = n.core := by
  have hstep := close_step source n
  generalize n.occur (.close source) = m at hstep ⊢
  cases hstep with
  | dynamic _ => exact absurd rfl (hs _)
  | refused _ | static _ _ | hub _ _ => rfl

/-! ### Moves that only end something -/

/-- All that a registry, if it exists, does from one node to another is to end something. -/
def Ends (r : Nat) (n n' : Node) : Prop := ∃ ms : List Move, (∀ m ∈ ms, m.isEnd = true) ∧
  n'.registryAt r = (n.registryAt r).map fun d => d.run ms

theorem Ends.of_eq {r : Nat} {n n' : Node} (h : n'.registryAt r = n.registryAt r) : Ends r n n' := by
  refine ⟨[], by simp, ?_⟩
  rw [h]
  exact Option.map_id'.symm

theorem Ends.of_followers {r : Nat} {n n' : Node} (h : n'.followers = n.followers) : Ends r n n' :=
  .of_eq (registryAt_congr h r)

theorem Ends.of_core {r : Nat} {n n' : Node} (h : n'.core = n.core) : Ends r n n' :=
  .of_followers (congrArg Core.followers h)

theorem Ends.trans {r : Nat} {n m k : Node} (h : Ends r n m) (h' : Ends r m k) : Ends r n k := by
  obtain ⟨ms, hms, hm⟩ := h
  obtain ⟨ms', hms', hk⟩ := h'
  refine ⟨ms ++ ms', ?_, ?_⟩
  · intro x hx
    exact (List.mem_append.mp hx).elim (hms x) (hms' x)
  · rw [hk, hm, Option.map_map]
    simp only [Function.comp_def, Dynamic.run_append]

theorem followers_closeRemote (remote : Remote) (n : Node) :
    (n.closeRemote remote).followers = n.followers := by
  cases remote <;> rfl

theorem followers_dropRemote (remote : Remote) (n : Node) :
    (n.dropRemote remote).followers = n.followers := by
  cases remote <;> rfl

theorem followers_takeSignal (remote : Remote) (n : Node) :
    (n.takeSignal remote).1.followers = n.followers := by
  cases remote <;> rfl

theorem registryAt_closeRemote (remote : Remote) (r : Nat) (n : Node) :
    (n.closeRemote remote).registryAt r = n.registryAt r :=
  registryAt_congr (followers_closeRemote remote n) r

/-- A registry that can be closed is closed, its instruments are withdrawn, and then its remote side is
closed. -/
theorem closeDynamic_eq_ok {r : Nat} {n m : Node} (h : n.closeDynamic r = .ok m) :
    ∃ f d e notices, n.followers[r]? = some f ∧
      f.registry.close (n.exposition f.exposition) = .ok (d, e, notices) ∧
      m = (((n.modifyFollower r fun f => { f with registry := d }).setExposition
        f.exposition e).tell notices).closeRemote f.remote := by
  unfold closeDynamic at h
  split at h
  · cases h
  next f hf =>
    obtain ⟨⟨d, e, notices⟩, hc, hm⟩ := bind_eq_ok.mp h
    exact ⟨f, d, e, notices, hf, hc, (Except.ok.inj hm).symm⟩

theorem ends_closeDynamic {s r : Nat} {n n' : Node} (h : n.closeDynamic s = .ok n') :
    Ends r n n' := by
  obtain ⟨f, d, e, notices, hf, hc, rfl⟩ := closeDynamic_eq_ok h
  by_cases hr : s = r
  · subst hr
    refine ⟨[.close (n.exposition f.exposition)], by simp [Move.isEnd], ?_⟩
    rw [registryAt_closeRemote, registryAt_tell, registryAt_setExposition,
      registryAt_modifyFollower, if_pos rfl]
    simp [registryAt, hf, Dynamic.run, Dynamic.after, hc]
  · apply Ends.of_eq
    rw [registryAt_closeRemote, registryAt_tell, registryAt_setExposition,
      registryAt_modifyFollower, if_neg hr]

theorem ends_withdrawDynamic (s r : Nat) (n : Node) : Ends r n (n.withdrawDynamic s) := by
  unfold withdrawDynamic
  split
  next => exact .of_eq rfl
  next f hf =>
    simp only [Ends, registryAt_tell, registryAt_setExposition, registryAt_modifyFollower]
    by_cases hr : s = r
    · subst hr
      refine ⟨[.withdraw (n.exposition f.exposition)], by simp [Move.isEnd], ?_⟩
      simp [registryAt, hf, Dynamic.run, Dynamic.after]
    · exact ⟨[], by simp, by simp [hr, Dynamic.run]⟩

theorem ends_ensureClosed (s r : Nat) (n : Node) : Ends r n (n.ensureClosed s) := by
  unfold ensureClosed
  split
  next m hm => exact ends_closeDynamic hm
  next => exact .of_eq rfl

theorem ends_readRemote (remote : Remote) (r : Nat) (n : Node) :
    Ends r n (n.readRemote remote).1 := by
  have hstep := read_step remote n
  generalize (n.readRemote remote).1 = m at hstep ⊢
  cases hstep with
  | watch | feed _ => exact .of_followers rfl
  | closes _ => exact (Ends.of_followers rfl).trans (ends_ensureClosed _ r _)

theorem registryAt_modifyHub (source : Source) (change : {α : Type} → Hub α → Hub α) (r : Nat)
    (n : Node) : (n.modifyHub source change).registryAt r = if source = .dynamic r then
      (n.registryAt r).map fun d => { d with hub := change d.hub } else n.registryAt r := by
  cases source with
  | hub h => rfl
  | static s => rfl
  | dynamic s =>
    simp only [modifyHub, registryAt_modifyFollower, Source.dynamic.injEq]
    split
    · rw [registryAt, Option.map_map]
      rfl
    · rfl

theorem ends_unsubscribe (source : Source) (id r : Nat) (n : Node) :
    Ends r n (n.unsubscribe source id) := by
  by_cases hr : source = .dynamic r
  · refine ⟨[.drop id], by simp [Move.isEnd], ?_⟩
    rw [unsubscribe, registryAt_modifyHub, if_pos hr]
    rfl
  · apply Ends.of_eq
    rw [unsubscribe, registryAt_modifyHub, if_neg hr]

/-- A relation between what a fold starts from and what it makes, step by step. -/
theorem foldl_related {α β : Type} {R : β → β → Prop} (hrefl : ∀ b, R b b)
    (htrans : ∀ b c d, R b c → R c d → R b d) {f : β → α → β} (hf : ∀ b a, R b (f b a)) (as : List α)
    (b : β) : R b (as.foldl f b) := by
  induction as generalizing b with
  | nil => exact hrefl b
  | cons a as ih => exact htrans _ _ _ (hf b a) (ih (f b a))

/-- Whoever knows what it means to drop one watch and to let one subscription go knows what a release
does. -/
theorem release_related {R : Node → Node → Prop} (hrefl : ∀ n, R n n)
    (htrans : ∀ n m k, R n m → R m k → R n k)
    (hdrop : ∀ n w, R n { n with store := n.store.dropWatch w })
    (hunsubscribe : ∀ n source id, R n (n.unsubscribe source id)) (h : Handles) (n : Node) :
    R n (n.release h) := by
  have hstore (ws : List Nat) (n : Node) :
      R n { n with store := ws.foldl (fun s w => s.dropWatch w) n.store } := by
    induction ws generalizing n with
    | nil => exact hrefl n
    | cons w ws ih => exact htrans _ _ _ (hdrop n w) (ih _)
  refine htrans _ _ _ (hstore _ n) (foldl_related hrefl htrans ?_ _ _)
  rintro m ⟨x, c⟩
  simp only
  split
  · split
    · exact hunsubscribe m _ _
    · exact hrefl m
  · exact hrefl m

theorem ends_release (h : Handles) (r : Nat) (n : Node) : Ends r n (n.release h) :=
  release_related (R := Ends r) (fun _ => .of_eq rfl) (fun _ _ _ => .trans)
    (fun _ _ => .of_followers rfl) (fun n source id => ends_unsubscribe source id r n) h n

/-! ### The update loop -/

/-- What the update loop of a registry reads in its next turn, if it has a signal. -/
def reading? (r : Nat) (n : Node) : Option (Option Value) :=
  match n.followers[r]? with
  | none => none
  | some f => if f.registry.closed then none else match n.takeSignal f.remote with
    | (m, .changed) => some (m.readRemote f.remote).2
    | _ => none

theorem registryAt_wake (s r : Nat) (content : Option Value) (n : Node) :
    (n.wake s content).registryAt r =
      if s = r then (n.registryAt r).map fun d => d.after (.receive content) else n.registryAt r := by
  unfold wake
  cases hf : n.followers[s]? with
  | none =>
    by_cases hr : s = r
    · subst hr
      simp [registryAt, hf]
    · rw [if_neg hr]
  | some f =>
    simp only [registryAt_tell, registryAt_modifyFollower]
    by_cases hr : s = r
    · subst hr
      simp [registryAt, hf, Dynamic.after]
    · rw [if_neg hr, if_neg hr]

theorem registryAt_endLoop (s r : Nat) (n : Node) : (n.endLoop s).registryAt r = n.registryAt r := by
  rw [endLoop, registryAt_endTask, registryAt_modifyFollower_of_eq]
  intro x
  rfl

/-- A turn of the update loop takes in what it reads, and otherwise ends the registry at most. -/
theorem stepUpdates_cases (s : Nat) (n : Node) :
    (∃ m content, n.reading? s = some content ∧ (∀ r, Ends r n m) ∧
      n.stepUpdates s = m.wake s content) ∨
    (n.reading? s = none ∧ ∀ r, Ends r n (n.stepUpdates s)) := by
  unfold stepUpdates reading?
  cases hf : n.followers[s]? with
  | none => exact Or.inr ⟨rfl, fun r => .of_followers rfl⟩
  | some f =>
    simp only
    split
    · exact Or.inr ⟨rfl, fun r => .of_eq (registryAt_endLoop s r n)⟩
    · have htake (r : Nat) : Ends r n (n.takeSignal f.remote).1 :=
        .of_followers (followers_takeSignal f.remote n)
      rcases hsig : n.takeSignal f.remote with ⟨m, signal⟩
      rw [hsig] at htake
      cases signal with
      | waiting => exact Or.inr ⟨rfl, htake⟩
      | ended =>
        refine Or.inr ⟨rfl, fun r => ((htake r).trans (ends_ensureClosed s r m)).trans ?_⟩
        exact .of_eq (registryAt_endLoop s r _)
      | changed =>
        exact Or.inl ⟨_, _, rfl, fun r => (htake r).trans (ends_readRemote f.remote r m), rfl⟩

/-! ### Calls that initialize -/

def IsStart (d : Dynamic) : Prop := ∃ o i first, d = Dynamic.start o i first ∧
  ∀ v t, first = some (v, t) → v.topology = .ok t

/-- Registries may end something, and one more may have started. -/
def Starts (n n' : Node) : Prop := ∃ m, (∀ r, Ends r n m) ∧ (n'.followers = m.followers ∨
  ∃ f, n'.followers = m.followers ++ [f] ∧ IsStart f.registry)

theorem Starts.of_ends {n n' : Node} (h : ∀ r, Ends r n n') : Starts n n' := ⟨n', h, Or.inl rfl⟩

theorem Starts.of_followers {n n' : Node} (h : n'.followers = n.followers) : Starts n n' :=
  .of_ends fun _ => .of_followers h

theorem Starts.of_core {n n' : Node} (h : n'.core = n.core) : Starts n n' :=
  .of_ends fun _ => .of_core h

theorem Starts.after {n m n' : Node} (h : ∀ r, Ends r n m) (h' : Starts m n') : Starts n n' := by
  obtain ⟨k, hk, hf⟩ := h'
  exact ⟨k, fun r => (h r).trans (hk r), hf⟩

theorem followers_fail (a i : Nat) (remote : Remote) (e : Error) (n : Node) :
    (n.fail a i remote e).followers = n.followers :=
  (followers_dropRemote remote _).trans (followers_closeRemote remote n)

theorem followers_abandon (a i : Nat) (stage : Stage) (n : Node) :
    (n.abandon a i stage).followers = n.followers := by
  unfold abandon
  cases stage with
  | waiting remote _ => exact followers_dropRemote remote n
  | fresh | queued | finished _ | abandoned => rfl

theorem starts_build (a i : Nat) (o : DynamicOptions) (remote : Remote)
    (first : Option (Value × Topology)) (n : Node)
    (h : ∀ v t, first = some (v, t) → v.topology = .ok t) :
    Starts n (n.build a i o remote first) := by
  have hfollowers := congrArg Core.followers (core_createInstruments o.exposition o.scope n)
  have hstep := build_step a i o remote first n
  generalize n.build a i o remote first = m at hstep ⊢
  cases hstep with
  | fails hmade =>
    rw [hmade] at hfollowers
    exact .of_followers ((followers_fail a i remote _ _).trans hfollowers)
  | @founds m instruments f hmade hf =>
    rw [hmade] at hfollowers
    refine ⟨n, fun r => .of_eq rfl, Or.inr ⟨f, congrArg (· ++ [f]) hfollowers, ?_⟩⟩
    exact ⟨o, instruments, first, congrArg Follower.registry hf, h⟩

theorem starts_conclude (a i : Nat) (o : DynamicOptions) (remote : Remote) (n : Node) :
    Starts n (n.conclude a i o remote) := by
  have hread (r : Nat) := ends_readRemote remote r n
  have hstep := conclude_step a i o remote n
  generalize n.conclude a i o remote = m at hstep ⊢
  refine Starts.after hread ?_
  cases hstep with
  | @builds v t _ ht =>
    refine starts_build a i o remote (some (v, t)) _ fun w u hw => ?_
    cases hw
    exact ht
  | empty _ _ => exact starts_build a i o remote none _ (by simp)
  | invalid _ _ | absent _ _ => exact .of_followers (followers_fail a i remote _ _)

theorem starts_await (a i : Nat) (o : DynamicOptions) (remote : Remote) (deadline : Nat) (n : Node) :
    Starts n (n.await a i o remote deadline) := by
  have htake (r : Nat) : Ends r n (n.takeSignal remote).1 :=
    .of_followers (followers_takeSignal remote n)
  have hstep := await_step a i o remote deadline n
  generalize n.await a i o remote deadline = m at hstep ⊢
  refine Starts.after htake ?_
  cases hstep with
  | changed _ => exact starts_conclude a i o remote _
  | ended _ =>
    exact Starts.after (fun r => .of_eq (registryAt_tell _ r _)) (starts_conclude a i o remote _)
  | late _ _ => exact .of_followers (followers_fail a i remote _ _)
  | waits _ _ => exact .of_followers rfl

theorem followers_follow {client : Client} {key : String} {n m : Node} {remote : Remote}
    (h : n.follow client key = .ok (m, remote)) : m.followers = n.followers := by
  cases follow_step h <;> rfl

theorem starts_takeTurn (a i : Nat) (x : Initializer) (n : Node) : Starts n (n.takeTurn a i x) := by
  have hstep := turn_step a i x n
  generalize n.takeTurn a i x = m at hstep ⊢
  cases hstep with
  | stands _ | invalid _ _ | unfollowed _ _ _ _ => exact .of_followers rfl
  | concludes _ _ _ hf _ =>
    exact Starts.after (fun r => .of_followers (followers_follow hf)) (starts_conclude a i x.options _ _)
  | awaits _ _ _ hf _ =>
    exact Starts.after (fun r => .of_followers (followers_follow hf)) (starts_await a i x.options _ _ _)

theorem starts_stepAttempt (a : Nat) (n : Node) : Starts n (n.stepAttempt a) := by
  have hturned := turned_stepAttempt a n
  generalize n.stepAttempt a = m at hturned ⊢
  cases hturned with
  | stays | ends | queues _ _ _ _ => exact .of_followers rfl
  | @abandons x _ _ => exact .of_followers (followers_abandon a x.initializer x.stage n)
  | @takes x y m _ _ hm =>
    have hreached (r : Nat) : Ends r n m := by
      cases hm <;> exact .of_followers rfl
    exact Starts.after hreached (starts_takeTurn a x.initializer y m)
  | @resumes x y remote deadline _ _ _ => exact starts_await a x.initializer y.options remote deadline n

/-! ### Events -/

def answer (source : Source) (id : Nat) (n : Node) : Event → Option (Delivery Item)
  | .next s i => if s = source ∧ i = id then some (n.next s i).2 else none
  | .turn (.consumer c) => match n.consumers[c]? with
    | some x =>
      if x.source = source ∧ x.subscription = some id then some (n.next x.source id).2 else none
    | none => none
  | _ => none

def handed (r : Nat) (n : Node) : Event → List (Option Value)
  | .wake s content => if s = r then [content] else []
  | .turn (.updates s) => if s = r then (n.reading? r).toList else []
  | _ => []

/-- How an event changes the registries of a node. Either it only ends something and may start a
registry, or one registry makes a move after such an end. -/
inductive Effect (n : Node) (e : Event) : Prop where
  | starts (change : Starts n (n.occur e)) (handed : ∀ r, n.handed r e = [])
      (answer : ∀ r id, n.answer (.dynamic r) id e = none)
  | moves (s : Nat) (m : Move) (k : Node) (ends : ∀ r, Ends r n k)
      (change : ∀ r, (n.occur e).registryAt r =
        if s = r then (k.registryAt r).map fun d => d.after m else k.registryAt r)
      (handed : ∀ r, n.handed r e = if s = r then m.content?.toList else [])
      (answer : ∀ r id d, k.registryAt r = some d → n.answer (.dynamic r) id e =
        if s = r then (d.answer id m).map (Delivery.map .topology) else none)

theorem Effect.of_ends {n : Node} {e : Event} (h : ∀ r, Ends r n (n.occur e))
    (handed : ∀ r, n.handed r e = []) (answer : ∀ r id, n.answer (.dynamic r) id e = none) :
    Effect n e := .starts (.of_ends h) handed answer

theorem peek_dynamic {r : Nat} {n : Node} {d : Dynamic} (hd : n.registryAt r = some d) (id : Nat) :
    n.peek (.dynamic r) id = (d.hub.peek id).map .topology := by
  obtain ⟨f, hf, rfl⟩ := Option.map_eq_some_iff.mp hd
  simp [peek, askHub, hf]

theorem answer_next {r : Nat} {n : Node} {d : Dynamic} (hd : n.registryAt r = some d) (id : Nat) :
    some (n.next (.dynamic r) id).2 = (d.answer id (.next id)).map (Delivery.map .topology) := by
  rw [Dynamic.answer, if_pos rfl, next, peek_dynamic hd, Hub.next_snd]
  rfl

theorem registryAt_next (source : Source) (id r : Nat) (n : Node) :
    (n.next source id).1.registryAt r = if source = .dynamic r then
      (n.registryAt r).map fun d => d.after (.next id) else n.registryAt r :=
  registryAt_modifyHub source _ r n

theorem registryAt_watch (s r : Nat) (n : Node) : (n.occur (.watch (.dynamic s))).registryAt r =
    if s = r then (n.registryAt r).map fun d => d.after .watch else n.registryAt r := by
  simp only [occur, watch]
  cases hf : n.followers[s]? with
  | none =>
    by_cases hr : s = r
    · subst hr
      simp [registryAt, hf]
    · rw [if_neg hr]
  | some f =>
    simp only
    cases hw : f.registry.watch with
    | error e =>
      by_cases hr : s = r
      · subst hr
        simp [Except.map, registryAt, hf, Dynamic.after, hw]
      · rw [if_neg hr]
        rfl
    | ok p =>
      obtain ⟨registry, id⟩ := p
      simp only [Except.map, registryAt_modifyFollower]
      by_cases hr : s = r
      · subst hr
        simp [registryAt, hf, Dynamic.after, hw]
      · rw [if_neg hr, if_neg hr]

theorem effect_watch (source : Source) (n : Node) : Effect n (.watch source) := by
  cases source with
  | dynamic s =>
    refine .moves s .watch n (fun r => .of_eq rfl) (fun r => registryAt_watch s r n) ?_ ?_
    · intro r
      split <;> rfl
    · intro r id d _
      split <;> rfl
  | hub _ | static _ =>
    exact .of_ends (fun r => .of_core (core_watch (by simp) n)) (fun _ => rfl) fun _ _ => rfl

theorem ends_close (source : Source) (r : Nat) (n : Node) : Ends r n (n.occur (.close source)) := by
  cases source with
  | dynamic s => exact ends_ensureClosed s r n
  | hub _ | static _ => exact .of_core (core_close (by simp) n)

/-- An event that changes registries and answers as asking for the next value does. -/
theorem effect_of_next {n : Node} {e : Event} (source : Source) (i : Nat)
    (change : ∀ r, (n.occur e).registryAt r = (n.next source i).1.registryAt r)
    (handed : ∀ r, n.handed r e = [])
    (hanswer : ∀ r id, n.answer (.dynamic r) id e = n.answer (.dynamic r) id (.next source i)) :
    Effect n e := by
  cases source with
  | dynamic s =>
    refine .moves s (.next i) n (fun r => .of_eq rfl) ?_ ?_ ?_
    · intro r
      rw [change, registryAt_next]
      simp only [Source.dynamic.injEq]
    · intro r
      rw [handed]
      split <;> rfl
    · intro r id d hd
      rw [hanswer]
      by_cases hs : s = r
      · subst hs
        by_cases hi : i = id
        · subst hi
          simpa [answer] using answer_next hd i
        · simp [answer, Dynamic.answer, hi]
      · simp [answer, hs]
  | hub _ | static _ =>
    refine .of_ends (fun r => .of_eq ?_) handed fun r id => ?_
    · rw [change, registryAt_next]
      exact if_neg (by simp)
    · rw [hanswer]
      simp [answer]

theorem effect_updates (s : Nat) (n : Node) : Effect n (.turn (.updates s)) := by
  rcases stepUpdates_cases s n with ⟨k, content, hread, hends, hstep⟩ | ⟨hread, hends⟩
  · refine .moves s (.receive content) k hends ?_ ?_ ?_
    · intro r
      have hwake := registryAt_wake s r content k
      rw [← hstep] at hwake
      exact hwake
    · intro r
      simp only [handed]
      split
      next h => simp [← h, hread, Move.content?]
      next => rfl
    · intro r id d _
      split <;> rfl
  · refine .of_ends hends ?_ fun _ _ => rfl
    intro r
    simp only [handed]
    split
    next h => simp [← h, hread]
    next => rfl

theorem effect_samples (s : Nat) (n : Node) : Effect n (.turn (.samples s)) := by
  have hturn (r : Nat) : (n.occur (.turn (.samples s))).registryAt r = (n.stepSamples s).registryAt r := rfl
  have hstep := sample_step s n
  generalize n.stepSamples s = m at hturn hstep
  have hstay (h : ∀ r, m.registryAt r = n.registryAt r) : Effect n (.turn (.samples s)) :=
    .of_ends (fun r => .of_eq ((hturn r).trans (h r))) (fun _ => rfl) fun _ _ => rfl
  cases hstep with
  | gone _ | waits _ _ _ => exact hstay fun _ => rfl
  | ends _ _ =>
    refine hstay fun r => ?_
    rw [registryAt_endTask]
    exact registryAt_modifyFollower_of_eq (by intro x; rfl) r n
  | samples _ _ _ =>
    refine .moves s .sample n (fun r => .of_eq rfl) (fun r => ?_) (fun r => ?_) fun r id d _ => ?_
    · rw [hturn, registryAt_modifyFollower, registryAt, Option.map_map]
      rfl
    · split <;> rfl
    · split <;> rfl

/-- A consumer that has a subscription does what its user would do by asking for the next value. -/
theorem effect_consumer (c : Nat) (n : Node) : Effect n (.turn (.consumer c)) := by
  have hturn (r : Nat) :
      (n.occur (.turn (.consumer c))).registryAt r = (n.stepConsumer c).registryAt r := rfl
  have hstep := consume_step c n
  generalize n.stepConsumer c = m at hturn hstep
  cases hstep with
  | gone hx =>
    refine .of_ends (fun r => .of_eq (hturn r)) (fun _ => rfl) fun r id => ?_
    cases hc : n.consumers[c]? with
    | none => simp [answer, hc]
    | some x =>
      have hnone : x.subscription = none := by simpa [hc] using hx
      simp [answer, hc, hnone]
  | @waits x i hx hid _ | @takes x i _ hx hid _ | @stops x i _ hx hid _ =>
    refine effect_of_next x.source i hturn (fun _ => rfl) fun r id => ?_
    simp only [answer, hx, hid, Option.some.injEq]
    split
    next h => rw [h.2]
    next => rfl

theorem effect_wake (s : Nat) (content : Option Value) (n : Node) : Effect n (.wake s content) := by
  refine .moves s (.receive content) n (fun r => .of_eq rfl)
    (fun r => registryAt_wake s r content n) ?_ ?_
  · intro r
    rfl
  · intro r id d _
    split <;> rfl

theorem effect (n : Node) (e : Event) : Effect n e := by
  have hstarts (change : Starts n (n.occur e)) (handed : ∀ r, n.handed r e = [])
      (answer : ∀ r id, n.answer (.dynamic r) id e = none) : Effect n e := .starts change handed answer
  cases e with
  | store _ | addInitializer _ | call _ | spawnInit _ | cancel _ =>
    exact hstarts (.of_followers rfl) (fun _ => rfl) fun _ _ => rfl
  | feed _ | closeOnRead _ | addMeter _ _ | count _ _ | report _ _ | withdraw _ | register _ _
  | unregister _ _ | addHub _ | publish _ _ | addStatic _ | consume _ _ _ | look _ | join _
  | readNotices | refresh | pass _ =>
    exact hstarts (.of_core (core_occur rfl n)) (fun _ => rfl) fun _ _ => rfl
  | close source =>
    exact hstarts (.of_ends fun r => ends_close source r n) (fun _ => rfl) fun _ _ => rfl
  | unsubscribe source id =>
    exact hstarts (.of_ends fun r => ends_unsubscribe source id r n) (fun _ => rfl) fun _ _ => rfl
  | withdrawDynamic s =>
    exact hstarts (.of_ends fun r => ends_withdrawDynamic s r n) (fun _ => rfl) fun _ _ => rfl
  | release h => exact hstarts (.of_ends fun r => ends_release h r n) (fun _ => rfl) fun _ _ => rfl
  | streamEnd s =>
    refine hstarts (.of_ends fun r => ?_) (fun _ => rfl) fun _ _ => rfl
    exact (ends_ensureClosed s r n).trans (.of_eq (registryAt_endLoop s r _))
  | watch source => exact effect_watch source n
  | next source i => exact effect_of_next source i (fun _ => rfl) (fun _ => rfl) fun _ _ => rfl
  | wake s content => exact effect_wake s content n
  | turn t =>
    cases t with
    | updates s => exact effect_updates s n
    | samples s => exact effect_samples s n
    | attempt a => exact hstarts (starts_stepAttempt a n) (fun _ => rfl) fun _ _ => rfl
    | consumer c => exact effect_consumer c n

/-! ### One registry -/

/-- How a registry comes through an event: it ends something, if anything, and then makes one move at
most. -/
structure Traced (r : Nat) (n : Node) (e : Event) (d k : Dynamic) (last : Option Move) : Prop where
  ends : ∃ ms : List Move, (∀ m ∈ ms, m.isEnd = true) ∧ k = d.run ms
  registry : (n.occur e).registryAt r = some (k.run last.toList)
  handed : n.handed r e = (last.bind Move.content?).toList
  answer (id : Nat) : n.answer (.dynamic r) id e =
    last.bind fun m => (k.answer id m).map (Delivery.map .topology)

theorem Ends.exists_moves {r : Nat} {n n' : Node} {d : Dynamic} (h : Ends r n n')
    (hd : n.registryAt r = some d) : ∃ ms : List Move, (∀ m ∈ ms, m.isEnd = true) ∧
      n'.registryAt r = some (d.run ms) := by
  obtain ⟨ms, hms, hr⟩ := h
  rw [hd] at hr
  exact ⟨ms, hms, hr⟩

theorem Starts.ends {r : Nat} {n n' : Node} {d : Dynamic} (h : Starts n n')
    (hd : n.registryAt r = some d) : Ends r n n' := by
  obtain ⟨m, hm, hf⟩ := h
  rcases hf with hf | ⟨f, hf, _⟩
  · exact (hm r).trans (.of_followers hf)
  · obtain ⟨ms, _, hr⟩ := (hm r).exists_moves hd
    obtain ⟨g, hg, _⟩ := Option.map_eq_some_iff.mp hr
    have hlt : r < m.followers.length := (List.getElem?_eq_some_iff.mp hg).1
    refine (hm r).trans (.of_eq ?_)
    unfold registryAt
    rw [hf, List.getElem?_append_left hlt]

theorem exists_traced {r : Nat} {n : Node} {d : Dynamic} (hd : n.registryAt r = some d) (e : Event) :
    ∃ k last, Traced r n e d k last := by
  -- A registry at which nothing but ends happen.
  have hends {n' : Node} (h : Ends r n n') (hn' : (n.occur e).registryAt r = n'.registryAt r)
      (handed : n.handed r e = []) (answer : ∀ id, n.answer (.dynamic r) id e = none) :
      ∃ k last, Traced r n e d k last := by
    obtain ⟨ms, hms, hr⟩ := h.exists_moves hd
    exact ⟨d.run ms, none, ⟨ms, hms, rfl⟩, hn'.trans hr, handed, answer⟩
  cases effect n e with
  | starts change handed answer => exact hends (change.ends hd) rfl (handed r) (answer r)
  | moves s m k ends change handed answer =>
    obtain ⟨ms, hms, hk⟩ := (ends r).exists_moves hd
    have hchange := change r
    have hhanded := handed r
    have hanswer (id : Nat) := answer r id (d.run ms) hk
    by_cases hs : s = r
    · simp only [hs, if_true] at hchange hhanded hanswer
      refine ⟨d.run ms, some m, ⟨ms, hms, rfl⟩, ?_, hhanded, hanswer⟩
      rw [hchange, hk]
      rfl
    · simp only [hs, if_false] at hchange hhanded hanswer
      exact hends (ends r) hchange hhanded hanswer

theorem Ends.none {r : Nat} {n n' : Node} (h : Ends r n n') (hn : n.registryAt r = none) :
    n'.registryAt r = none := by
  obtain ⟨ms, _, hr⟩ := h
  rw [hr, hn]
  rfl

theorem Starts.isStart {r : Nat} {n n' : Node} {d : Dynamic} (h : Starts n n')
    (hn : n.registryAt r = none) (hd : n'.registryAt r = some d) : IsStart d := by
  obtain ⟨m, hm, hf⟩ := h
  have hnone := (hm r).none hn
  rcases hf with hf | ⟨f, hf, hstart⟩
  · rw [registryAt_congr hf, hnone] at hd
    cases hd
  · rw [registryAt, Option.map_eq_none_iff, List.getElem?_eq_none_iff] at hnone
    rw [registryAt, hf, List.getElem?_append_right hnone] at hd
    obtain ⟨g, hg, rfl⟩ := Option.map_eq_some_iff.mp hd
    obtain rfl := List.mem_singleton.mp (List.mem_of_getElem? hg)
    exact hstart

/-- A registry that was not there before an event has just started. -/
theorem isStart_of_new {r : Nat} {n : Node} {e : Event} {d : Dynamic} (hn : n.registryAt r = none)
    (hd : (n.occur e).registryAt r = some d) : IsStart d := by
  cases effect n e with
  | starts change _ _ => exact change.isStart hn hd
  | moves s m k ends change _ _ =>
    have hnone := (ends r).none hn
    rw [change, hnone] at hd
    split at hd <;> cases hd

end Node

end NamespaceTopology
