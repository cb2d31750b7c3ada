import NamespaceTopology.Proofs.Metrics.Ownership
import NamespaceTopology.Proofs.Node.Closing

set_option autoImplicit false

/-!
The ledger of a node: all instruments that were made by themselves or with a registry, and what expositions
show. Every event is a series of entries, so the ledger stays in order as long as nobody takes out of an
exposition what he has not put there through instruments.
-/
namespace NamespaceTopology

def Follower.meter (f : Follower) : Meter := ⟨f.exposition, f.registry.instruments⟩

namespace Node

def ledger (n : Node) : Ledger where
  exposition name := n.exposition name
  meter?
    | .meter m => n.meters[m]?
    | .registry r => (n.followers.map Follower.meter)[r]?
  nextOwner := n.nextOwner

def Enters (n n' : Node) : Prop := Ledger.Entries n.ledger n'.ledger

theorem Enters.refl (n : Node) : Enters n n := Ledger.Entries.refl n.ledger

theorem Enters.of_eq {n n' : Node} (h : n'.ledger = n.ledger) : Enters n n' := Ledger.Entries.of_eq h

theorem Enters.trans {n m k : Node} (h : Enters n m) (h' : Enters m k) : Enters n k :=
  Ledger.Entries.trans h h'

theorem Enters.of_entry {n n' : Node} {l : Ledger} (h : Ledger.Entry n.ledger l) (hl : n'.ledger = l) :
    Enters n n' := by
  rw [Enters, hl]
  exact .of h

variable {n m : Node}

/-! ### Parts of the ledger -/

theorem ledger_congr (hexpositions : m.expositions = n.expositions) (hmeters : m.meters = n.meters)
    (hfollowers : m.followers = n.followers) (howner : m.nextOwner = n.nextOwner) :
    m.ledger = n.ledger := by
  unfold ledger exposition
  rw [hexpositions, hmeters, hfollowers, howner]

theorem ledger_setExposition (name : String) (e : Exposition) (n : Node) :
    (n.setExposition name e).ledger = n.ledger.expose name e := by
  have hexposition : (fun k => (n.setExposition name e).exposition k) =
      fun k => if k = name then e else n.exposition k :=
    funext fun k => exposition_setExposition name k e n
  simp only [ledger, Ledger.expose, hexposition]
  rfl

theorem ledger_modifyMeter {i : Nat} {x : Meter} (hx : n.meters[i]? = some x)
    (f : Instruments → Instruments) : (n.modifyMeter i f).ledger =
      n.ledger.put (.meter i) { x with instruments := f x.instruments } := by
  have hmeter : (n.modifyMeter i f).ledger.meter? = (n.ledger.put (.meter i)
      { x with instruments := f x.instruments }).meter? := by
    funext a
    cases a with
    | registry r => rfl
    | meter j =>
      change (n.meters.modify i _)[j]? = if Exporter.meter j = .meter i then _ else n.meters[j]?
      by_cases hj : i = j
      · subst hj
        simp [hx]
      · rw [List.getElem?_modify_ne _ _ hj, if_neg fun h => hj (Exporter.meter.inj h).symm]
  exact congrArg (Ledger.mk _ · _) hmeter

theorem ledger_modifyFollower {r : Nat} {f : Follower} (hf : n.followers[r]? = some f)
    (g : Follower → Follower) : (n.modifyFollower r g).ledger =
      n.ledger.put (.registry r) (g f).meter := by
  have hmeter : (n.modifyFollower r g).ledger.meter? = (n.ledger.put (.registry r) (g f).meter).meter? := by
    funext a
    cases a with
    | meter i => rfl
    | registry s =>
      change ((n.followers.modify r g).map Follower.meter)[s]? =
        if Exporter.registry s = .registry r then _ else (n.followers.map Follower.meter)[s]?
      simp only [List.getElem?_map]
      by_cases hs : r = s
      · subst hs
        simp [hf]
      · rw [List.getElem?_modify_ne _ _ hs, if_neg fun h => hs (Exporter.registry.inj h).symm]
  exact congrArg (Ledger.mk _ · _) hmeter

theorem ledger_createInstruments (exposition scope : String) (n : Node) :
    (n.createInstruments exposition scope).1.ledger = (n.ledger.expose exposition (Instruments.create
      n.ledger.nextOwner scope (n.ledger.exposition exposition)).exposition).number :=
  congrArg Ledger.number (ledger_setExposition exposition _ n)

theorem createInstruments_snd (exposition scope : String) (n : Node) :
    (n.createInstruments exposition scope).2 = (Instruments.create n.ledger.nextOwner scope
      (n.ledger.exposition exposition)).result := rfl

theorem getElem?_concat_eq {α : Type} (xs : List α) (x : α) (i : Nat) :
    (xs ++ [x])[i]? = if i = xs.length then some x else xs[i]? := by
  rcases Nat.lt_trichotomy i xs.length with hlt | rfl | hgt
  · rw [List.getElem?_append_left hlt, if_neg (Nat.ne_of_lt hlt)]
  · rw [List.getElem?_concat_length, if_pos rfl]
  · rw [if_neg (Nat.ne_of_gt hgt), List.getElem?_eq_none (Nat.le_of_lt hgt), List.getElem?_eq_none_iff,
      List.length_append]
    exact hgt

theorem ledger_addMeter (x : Meter) (n : Node) : { n with meters := n.meters ++ [x] }.ledger =
    n.ledger.put (.meter n.meters.length) x := by
  have hmeter : { n with meters := n.meters ++ [x] }.ledger.meter? =
      (n.ledger.put (.meter n.meters.length) x).meter? := by
    funext a
    cases a with
    | registry r => rfl
    | meter i =>
      refine (getElem?_concat_eq n.meters x i).trans ?_
      simp only [Ledger.put, Exporter.meter.injEq]
      rfl
  exact congrArg (Ledger.mk _ · _) hmeter

theorem ledger_addFollower (f : Follower) (n : Node) : { n with followers := n.followers ++ [f] }.ledger =
    n.ledger.put (.registry n.followers.length) f.meter := by
  have hmeter : { n with followers := n.followers ++ [f] }.ledger.meter? =
      (n.ledger.put (.registry n.followers.length) f.meter).meter? := by
    funext a
    cases a with
    | meter i => rfl
    | registry r =>
      change ((n.followers ++ [f]).map Follower.meter)[r]? = _
      rw [List.map_append, List.map_singleton, getElem?_concat_eq, List.length_map]
      simp only [Ledger.put, Exporter.registry.injEq]
      rfl
  exact congrArg (Ledger.mk _ · _) hmeter

theorem fresh_meter (n : Node) : n.ledger.meter? (.meter n.meters.length) = none :=
  List.getElem?_eq_none (Nat.le_refl _)

theorem fresh_registry (n : Node) : n.ledger.meter? (.registry n.followers.length) = none :=
  List.getElem?_eq_none (Nat.le_of_eq (List.length_map ..))

/-! ### Instruments -/

/-- Somebody uses his instruments, and perhaps changes what else belongs to them. -/
theorem enters_use {n' : Node} {a : Exporter} {x y : Meter} (hx : n.ledger.meter? a = some x)
    (hsame : x.Same y) (hn' : n'.ledger = n.ledger.put a y) : Enters n n' := by
  have hentry : Ledger.Entry n.ledger (n.ledger.put a y) := by
    refine .use rfl rfl fun b => ?_
    change Option.Rel Meter.Same (n.ledger.meter? b) (if b = a then some y else n.ledger.meter? b)
    split
    next hb =>
      rw [hb, hx]
      exact .some hsame
    next =>
      cases n.ledger.meter? b with
      | none => exact .none
      | some z => exact .some (.refl z)
  exact .of_entry hentry hn'

theorem meter?_of_follower {r : Nat} {f : Follower} (hf : n.followers[r]? = some f) :
    n.ledger.meter? (.registry r) = some f.meter := by
  change (n.followers.map Follower.meter)[r]? = some f.meter
  rw [List.getElem?_map, hf]
  rfl

theorem enters_modifyMeter (i : Nat) {f : Instruments → Instruments}
    (hf : ∀ x, Instruments.Same x (f x)) (n : Node) : Enters n (n.modifyMeter i f) := by
  cases hx : n.meters[i]? with
  | none =>
    refine .of_eq (congrArg (fun meters => { n with meters }.ledger) (?_ : _ = n.meters))
    exact List.modify_eq_self (List.getElem?_eq_none_iff.mp hx)
  | some x =>
    refine enters_use (a := .meter i) hx ?_ (ledger_modifyMeter hx f)
    exact ⟨rfl, hf x.instruments⟩

theorem enters_modifyFollower (r : Nat) {g : Follower → Follower}
    (hg : ∀ f, n.followers[r]? = some f → f.meter.Same (g f).meter) :
    Enters n (n.modifyFollower r g) := by
  cases hf : n.followers[r]? with
  | none =>
    refine .of_eq (congrArg (fun followers => { n with followers }.ledger) (?_ : _ = n.followers))
    exact List.modify_eq_self (List.getElem?_eq_none_iff.mp hf)
  | some f => exact enters_use (meter?_of_follower hf) (hg f hf) (ledger_modifyFollower hf g)

theorem ledger_withdraw {i : Nat} {x : Meter} (hx : n.meters[i]? = some x) :
    (n.withdraw i).ledger = n.ledger.withdrawn (.meter i) x := by
  have hledger := ledger_setExposition x.exposition
    (x.instruments.withdraw (n.ledger.exposition x.exposition)).2.1 (n.modifyMeter i fun _ =>
      (x.instruments.withdraw (n.ledger.exposition x.exposition)).1)
  rw [ledger_modifyMeter hx, Ledger.expose_put] at hledger
  unfold withdraw
  rw [hx]
  exact (ledger_congr rfl rfl rfl rfl).trans hledger

theorem enters_withdraw (i : Nat) (n : Node) : Enters n (n.withdraw i) := by
  cases hx : n.meters[i]? with
  | none =>
    unfold withdraw
    rw [hx]
    exact .refl n
  | some x => exact .of_entry (.withdraw n.ledger (a := .meter i) hx) (ledger_withdraw hx)

theorem enters_addMeter (exposition scope : String) (n : Node) :
    Enters n (n.addMeter exposition scope).1 := by
  have hledger := ledger_createInstruments exposition scope n
  have hmade := createInstruments_snd exposition scope n
  have hmeters : (n.createInstruments exposition scope).1.meters = n.meters := rfl
  unfold addMeter
  rcases hc : n.createInstruments exposition scope with ⟨k, made⟩
  rw [hc] at hledger hmade hmeters
  cases made with
  | error cause => exact .of_entry (.refuse n.ledger hmade.symm) hledger
  | ok i =>
    refine .of_entry (.make n.ledger (fresh_meter n) hmade.symm) ?_
    rw [ledger_addMeter, hledger, hmeters, Ledger.put_number]

/-! ### Registries -/

theorem ledger_closeRemote (remote : Remote) (n : Node) : (n.closeRemote remote).ledger = n.ledger := by
  unfold closeRemote
  cases remote <;> exact ledger_congr rfl rfl rfl rfl

theorem ledger_dropRemote (remote : Remote) (n : Node) : (n.dropRemote remote).ledger = n.ledger := by
  unfold dropRemote
  cases remote <;> exact ledger_congr rfl rfl rfl rfl

theorem ledger_takeSignal (remote : Remote) (n : Node) : (n.takeSignal remote).1.ledger = n.ledger := by
  unfold takeSignal
  cases remote <;> exact ledger_congr rfl rfl rfl rfl

theorem ledger_follow {client : Client} {key : String} {remote : Remote}
    (h : n.follow client key = .ok (m, remote)) : m.ledger = n.ledger := by
  cases follow_step h <;> rfl

theorem ledger_addTask (t : Task) (n : Node) : (n.addTask t).ledger = n.ledger := rfl

theorem ledger_modifyInitializer (i : Nat) (f : Initializer → Initializer) (n : Node) :
    (n.modifyInitializer i f).ledger = n.ledger := rfl

theorem ledger_endAttempt (a i : Nat) (stage : Stage) (n : Node) :
    (n.endAttempt a i stage).ledger = n.ledger := rfl

theorem ledger_fail (a i : Nat) (remote : Remote) (e : Error) (n : Node) :
    (n.fail a i remote e).ledger = n.ledger :=
  (ledger_endAttempt a i _ _).trans ((ledger_dropRemote remote _).trans (ledger_closeRemote remote n))

theorem ledger_abandon (a i : Nat) (stage : Stage) (n : Node) :
    (n.abandon a i stage).ledger = n.ledger := by
  unfold abandon
  cases stage with
  | waiting remote deadline => exact (ledger_endAttempt a i _ _).trans (ledger_dropRemote remote n)
  | fresh | queued | finished _ | abandoned => exact ledger_endAttempt a i .abandoned n

theorem ledger_setRegistry {r : Nat} {f : Follower} (hf : n.followers[r]? = some f) {d : Dynamic}
    {e : Exposition} (he : (f.registry.instruments.withdraw (n.exposition f.exposition)).2.1 = e)
    (hd : (f.registry.instruments.withdraw (n.exposition f.exposition)).1 = d.instruments) :
    ((n.modifyFollower r fun f => { f with registry := d }).setExposition f.exposition e).ledger =
      n.ledger.withdrawn (.registry r) f.meter := by
  have hledger := ledger_setExposition f.exposition e (n.modifyFollower r fun f =>
    { f with registry := d })
  rw [ledger_modifyFollower hf, Ledger.expose_put] at hledger
  rw [hledger]
  change Ledger.put _ ⟨f.exposition, d.instruments⟩ _ = _
  rw [← he, ← hd]
  rfl

/-- To close a registry is to withdraw its instruments. -/
theorem ledger_closeDynamic {r : Nat} (h : n.closeDynamic r = .ok m) : ∃ f, n.followers[r]? = some f ∧
    f.registry.closed = false ∧ m.ledger = n.ledger.withdrawn (.registry r) f.meter := by
  obtain ⟨f, d, e, notices, hf, hc, rfl⟩ := closeDynamic_eq_ok h
  refine ⟨f, hf, (Dynamic.closed_of_close hc).1, ?_⟩
  obtain ⟨he, hd⟩ : (f.registry.instruments.withdraw (n.exposition f.exposition)).2.1 = e ∧
      (f.registry.instruments.withdraw (n.exposition f.exposition)).1 = d.instruments := by
    unfold Dynamic.close at hc
    split at hc
    · cases hc
    · obtain ⟨rfl, hrest⟩ := Prod.mk.inj (Except.ok.inj hc)
      exact ⟨(Prod.mk.inj hrest).1, rfl⟩
  rw [ledger_closeRemote]
  exact (ledger_congr rfl rfl rfl rfl).trans (ledger_setRegistry hf he hd)

theorem enters_closeDynamic {r : Nat} (h : n.closeDynamic r = .ok m) : Enters n m := by
  obtain ⟨f, hf, _, hledger⟩ := ledger_closeDynamic h
  exact .of_entry (.withdraw n.ledger (meter?_of_follower hf)) hledger

theorem ledger_withdrawDynamic {r : Nat} {f : Follower} (hf : n.followers[r]? = some f) :
    (n.withdrawDynamic r).ledger = n.ledger.withdrawn (.registry r) f.meter := by
  unfold withdrawDynamic
  rw [hf]
  exact (ledger_congr rfl rfl rfl rfl).trans
    (ledger_setRegistry hf (d := (f.registry.withdraw (n.exposition f.exposition)).1) rfl rfl)

theorem enters_withdrawDynamic (r : Nat) (n : Node) : Enters n (n.withdrawDynamic r) := by
  cases hf : n.followers[r]? with
  | none =>
    unfold withdrawDynamic
    rw [hf]
    exact .refl n
  | some f => exact .of_entry (.withdraw n.ledger (meter?_of_follower hf)) (ledger_withdrawDynamic hf)

theorem enters_ensureClosed (r : Nat) (n : Node) : Enters n (n.ensureClosed r) := by
  unfold ensureClosed
  split
  next m hm => exact enters_closeDynamic hm
  next => exact .refl n

theorem enters_readRemote (remote : Remote) (n : Node) : Enters n (n.readRemote remote).1 := by
  have hstep := read_step remote n
  generalize (n.readRemote remote).1 = m at hstep ⊢
  cases hstep with
  | watch | feed _ => exact .of_eq rfl
  | @closes r _ =>
    let read : Node := { n with feed := { n.feed with reads := n.feed.reads + 1 }, closeOnRead := none }
    exact Enters.trans (m := read) (.of_eq rfl) (enters_ensureClosed r read)

theorem enters_build (a i : Nat) (o : DynamicOptions) (remote : Remote)
    (first : Option (Value × Topology)) (n : Node) : Enters n (n.build a i o remote first) := by
  have hledger := ledger_createInstruments o.exposition o.scope n
  have hmade := createInstruments_snd o.exposition o.scope n
  have hlength : (n.createInstruments o.exposition o.scope).1.followers.length = n.followers.length := rfl
  have hstep := build_step a i o remote first n
  generalize n.build a i o remote first = built at hstep ⊢
  cases hstep with
  | fails hc =>
    rw [hc] at hledger hmade
    exact .of_entry (.refuse n.ledger hmade.symm) ((ledger_fail a i remote _ _).trans hledger)
  | @founds k instruments f hc hf =>
    rw [hc] at hledger hmade hlength
    refine .of_entry (.make n.ledger (fresh_registry n) hmade.symm) ?_
    have hmeter : f.meter = ⟨o.exposition, instruments⟩ := by
      rw [hf]
      cases first <;> rfl
    have hadded := ledger_addFollower f k
    rw [hledger, hlength, hmeter, Ledger.put_number] at hadded
    simp only [ledger_endAttempt, ledger_modifyInitializer, ledger_addTask]
    exact hadded

theorem enters_conclude (a i : Nat) (o : DynamicOptions) (remote : Remote) (n : Node) :
    Enters n (n.conclude a i o remote) := by
  have hstep := conclude_step a i o remote n
  generalize n.conclude a i o remote = m at hstep ⊢
  refine (enters_readRemote remote n).trans ?_
  cases hstep with
  | builds _ _ | empty _ _ => exact enters_build a i o remote _ _
  | invalid _ _ | absent _ _ => exact .of_eq (ledger_fail a i remote _ _)

theorem enters_await (a i : Nat) (o : DynamicOptions) (remote : Remote) (deadline : Nat) (n : Node) :
    Enters n (n.await a i o remote deadline) := by
  have hstep := await_step a i o remote deadline n
  generalize n.await a i o remote deadline = m at hstep ⊢
  refine (Enters.of_eq (ledger_takeSignal remote n)).trans ?_
  cases hstep with
  | changed _ => exact enters_conclude a i o remote _
  | ended _ =>
    exact Enters.trans (.of_eq rfl) (enters_conclude a i o remote ((n.takeSignal remote).1.tell _))
  | late _ _ => exact .of_eq (ledger_fail a i remote _ _)
  | waits _ _ => exact .of_eq rfl

theorem enters_takeTurn (a i : Nat) (x : Initializer) (n : Node) : Enters n (n.takeTurn a i x) := by
  have hstep := turn_step a i x n
  generalize n.takeTurn a i x = m at hstep ⊢
  cases hstep with
  | stands _ | invalid _ _ | unfollowed _ _ _ _ => exact .of_eq rfl
  | concludes _ _ _ hf _ =>
    exact (Enters.of_eq (ledger_follow hf)).trans (enters_conclude a i x.options _ _)
  | awaits _ _ _ hf _ =>
    exact (Enters.of_eq (ledger_follow hf)).trans (enters_await a i x.options _ _ _)

theorem enters_stepAttempt (a : Nat) (n : Node) : Enters n (n.stepAttempt a) := by
  have hturned := turned_stepAttempt a n
  generalize n.stepAttempt a = m at hturned ⊢
  cases hturned with
  | stays | ends | queues _ _ _ _ => exact .of_eq rfl
  | @abandons x _ _ => exact .of_eq (ledger_abandon a x.initializer x.stage n)
  | @takes x y m _ _ hm =>
    have hreached : Enters n m := by
      cases hm <;> exact .of_eq rfl
    exact hreached.trans (enters_takeTurn a x.initializer y m)
  | @resumes x y remote deadline _ _ _ => exact enters_await a x.initializer y.options remote deadline n

/-! ### Events -/

theorem enters_modifyHub (source : Source) (change : {α : Type} → Hub α → Hub α) (n : Node) :
    Enters n (n.modifyHub source change) := by
  cases source with
  | hub _ | static _ => exact .of_eq rfl
  | dynamic r => exact enters_modifyFollower r fun f _ => .refl f.meter

theorem enters_next (source : Source) (id : Nat) (n : Node) : Enters n (n.next source id).1 :=
  enters_modifyHub source _ n

theorem enters_unsubscribe (source : Source) (id : Nat) (n : Node) :
    Enters n (n.unsubscribe source id) := enters_modifyHub source _ n

theorem enters_release (h : Handles) (n : Node) : Enters n (n.release h) :=
  release_related (R := Enters) .refl (fun _ _ _ => .trans) (fun _ _ => .of_eq rfl)
    (fun n source id => enters_unsubscribe source id n) h n

/-- A registry that makes a move keeps the instruments that it shows, unless it is closed. -/
theorem enters_move {r : Nat} {f : Follower} (hf : n.followers[r]? = some f) {d : Dynamic}
    (hd : Instruments.Same f.registry.instruments d.instruments) :
    Enters n (n.modifyFollower r fun f => { f with registry := d }) := by
  refine enters_modifyFollower r fun g hg => ?_
  obtain rfl := Option.some.inj (hf.symm.trans hg)
  exact ⟨rfl, hd⟩

theorem enters_watch (source : Source) (n : Node) : Enters n (n.occur (.watch source)) := by
  have hstep := watch_step source n
  generalize n.occur (.watch source) = m at hstep ⊢
  cases hstep with
  | refused _ | static _ _ | hub _ _ => exact .of_eq rfl
  | dynamic hf hw =>
    obtain ⟨_, hub, _, rfl⟩ := Dynamic.watch_eq_ok hw
    exact enters_move hf ⟨rfl, rfl, rfl, rfl⟩

theorem enters_close (source : Source) (n : Node) : Enters n (n.occur (.close source)) := by
  have hstep := close_step source n
  generalize n.occur (.close source) = m at hstep ⊢
  cases hstep with
  | refused _ | static _ _ | hub _ _ => exact .of_eq rfl
  | dynamic hc => exact enters_closeDynamic hc

theorem enters_wake (r : Nat) (content : Option Value) (n : Node) : Enters n (n.wake r content) := by
  unfold wake
  cases hf : n.followers[r]? with
  | none => exact .refl n
  | some f => exact (enters_move hf (Dynamic.same_receive f.registry content)).trans (.of_eq rfl)

theorem enters_endLoop (r : Nat) (n : Node) : Enters n (n.endLoop r) :=
  enters_modifyFollower r (g := fun f => { f with loopDone := true }) fun f _ => .refl f.meter

theorem enters_stepUpdates (r : Nat) (n : Node) : Enters n (n.stepUpdates r) := by
  have htake {remote : Remote} : Enters n (n.takeSignal remote).1 := .of_eq (ledger_takeSignal remote n)
  have hstep := update_step r n
  generalize n.stepUpdates r = m at hstep ⊢
  cases hstep with
  | gone _ => exact .of_eq rfl
  | ends _ _ => exact enters_endLoop r n
  | waits _ _ _ => exact htake
  | ended _ _ _ => exact htake.trans ((enters_ensureClosed r _).trans (enters_endLoop r _))
  | wakes _ _ _ => exact htake.trans ((enters_readRemote _ _).trans (enters_wake r _ _))

theorem enters_stepSamples (r : Nat) (n : Node) : Enters n (n.stepSamples r) := by
  have hstep := sample_step r n
  generalize n.stepSamples r = m at hstep ⊢
  cases hstep with
  | gone _ | waits _ _ _ => exact .of_eq rfl
  | ends _ _ =>
    exact enters_modifyFollower r (g := fun f => { f with samplerDone := true }) fun f _ => .refl f.meter
  | samples _ _ _ =>
    exact enters_modifyFollower r fun _ _ => ⟨rfl, Dynamic.same_after (m := .sample) rfl⟩

theorem enters_stepConsumer (c : Nat) (n : Node) : Enters n (n.stepConsumer c) := by
  have hstep := consume_step c n
  generalize n.stepConsumer c = m at hstep ⊢
  cases hstep with
  | gone _ => exact .of_eq rfl
  | waits _ _ _ => exact enters_next _ _ n
  | takes _ _ _ | stops _ _ _ => exact (enters_next _ _ n).trans (.of_eq rfl)

/-- It does not matter how the tasks stand in line after a step of one of them. -/
theorem Enters.queued (h : Enters n m) (t : Task) : Enters n (m.dequeue t).refresh :=
  h.trans (.of_eq rfl)

theorem enters_turn (t : Task) (n : Node) : Enters n (n.turn t) := by
  cases t with
  | updates r => exact (enters_stepUpdates r n).queued (.updates r)
  | samples r => exact (enters_stepSamples r n).queued (.samples r)
  | attempt a => exact (enters_stepAttempt a n).queued (.attempt a)
  | consumer c => exact (enters_stepConsumer c n).queued (.consumer c)

theorem enters_register {exposition : String} {c : Collector} (hc : c.source.owner? = none) (n : Node) :
    Enters n (n.occur (.register exposition c)) := by
  rcases register_cases exposition c n with h | ⟨e, he, h⟩
  · rw [h]
    exact .refl n
  · rw [h]
    exact .of_entry (.register n.ledger hc he) (ledger_setExposition exposition e n)

theorem enters_publish (h : Nat) (s : String) (n : Node) : Enters n (n.occur (.publish h s)) := by
  rcases publish_cases h s n with heq | ⟨_, _, _, _, heq⟩
  · rw [heq]
    exact .refl n
  · rw [heq]
    exact .of_eq rfl

theorem ledger_look (c : Nat) (n : Node) : (n.look c).1.ledger = n.ledger := by
  unfold look
  split <;> exact ledger_congr rfl rfl rfl rfl

theorem ledger_join (c : Nat) (n : Node) : (n.join c).1.ledger = n.ledger := by
  unfold join
  split <;> exact ledger_congr rfl rfl rfl rfl

/-- Whether an event leaves the collectors of others alone: none is taken out of an exposition, and none
comes that claims to be somebody's instrument. -/
def Event.isFair : Event → Bool
  | .register _ c => c.source.owner?.isNone
  | .unregister _ _ => false
  | _ => true

theorem enters_occur {e : Event} (he : e.isFair = true) (n : Node) : Enters n (n.occur e) := by
  cases e with
  | store _ | feed _ | closeOnRead _ | addHub _ | addStatic _ | addInitializer _ | consume _ _ _ | call _
  | spawnInit _ | cancel _ | readNotices | refresh | pass _ => exact .of_eq rfl
  | addMeter exposition scope => exact enters_addMeter exposition scope n
  | count i updates => exact enters_modifyMeter i (f := .count updates) (fun _ => ⟨rfl, rfl, rfl, rfl⟩) n
  | report i version =>
    exact enters_modifyMeter i (f := .report version) (fun _ => ⟨rfl, rfl, rfl, rfl⟩) n
  | withdraw i => exact enters_withdraw i n
  | withdrawDynamic r => exact enters_withdrawDynamic r n
  | register exposition c => exact enters_register (Option.isNone_iff_eq_none.mp he) n
  | unregister _ _ => cases he
  | publish h s => exact enters_publish h s n
  | watch source => exact enters_watch source n
  | close source => exact enters_close source n
  | next source id => exact enters_next source id n
  | unsubscribe source id => exact enters_unsubscribe source id n
  | look c => exact .of_eq (ledger_look c n)
  | join c => exact .of_eq (ledger_join c n)
  | release h => exact enters_release h n
  | turn t => exact enters_turn t n
  | wake r content => exact enters_wake r content n
  | streamEnd r => exact (enters_ensureClosed r n).trans (enters_endLoop r _)

theorem enters_run {es : List Event} (hes : ∀ e ∈ es, e.isFair = true) (n : Node) :
    Enters n (n.run es) := by
  induction es generalizing n with
  | nil => exact .refl n
  | cons e es ih =>
    exact (enters_occur (hes e List.mem_cons_self) n).trans
      (ih (fun x hx => hes x (List.mem_cons_of_mem e hx)) _)

theorem orderly_ledger_start : start.ledger.Orderly where
  below a x hx := by cases a <;> cases hx
  distinct a b x y hx := by cases a <;> cases hx
  shown a x c hx := by cases a <;> cases hx
  owned name c o hc := absurd hc List.not_mem_nil

/-! ### Giving instruments up -/

/-- How somebody gives his instruments up: just so, or, if he is a registry, by being closed. -/
inductive GivesUp : Exporter → Event → Prop where
  | meter (m : Nat) : GivesUp (.meter m) (.withdraw m)
  | registry (r : Nat) : GivesUp (.registry r) (.withdrawDynamic r)
  | close (r : Nat) : GivesUp (.registry r) (.close (.dynamic r))

theorem withdraw_of_meter {i : Nat} {x : Meter} (hx : n.meters[i]? = some x) {j : Instruments}
    {e : Exposition} {notices : List Notice}
    (hw : x.instruments.withdraw (n.exposition x.exposition) = (j, e, notices)) :
    n.withdraw i = ((n.modifyMeter i fun _ => j).setExposition x.exposition e).tell notices := by
  unfold withdraw
  rw [hx]
  simp only [hw]

theorem withdraw_withdraw (i : Nat) (n : Node) : (n.withdraw i).withdraw i = n.withdraw i := by
  cases hx : n.meters[i]? with
  | none =>
    have hsame : n.withdraw i = n := by
      unfold withdraw
      rw [hx]
    rw [hsame, hsame]
  | some x =>
    rcases hw : x.instruments.withdraw (n.exposition x.exposition) with ⟨j, e, notices⟩
    have hfirst := withdraw_of_meter hx hw
    have hmeter : (n.withdraw i).meters[i]? = some { x with instruments := j } := by
      simp [hfirst, tell, setExposition, modifyMeter, hx]
    have hshown : (n.withdraw i).exposition x.exposition = e := by
      have h := exposition_setExposition x.exposition x.exposition e (n.modifyMeter i fun _ => j)
      rw [if_pos rfl] at h
      rw [hfirst]
      exact h
    have hagain : j.withdraw ((n.withdraw i).exposition x.exposition) = (j, e, []) := by
      have h := x.instruments.withdraw_withdrawn (n.exposition x.exposition) e
      rw [hw] at h
      rw [hshown]
      exact h
    rw [withdraw_of_meter hmeter hagain, hfirst]
    simp [tell, setExposition, modifyMeter, List.modify_modify_eq, Function.comp_def]

/-- Where one exporter has withdrawn what he has, the rest is shown as before. -/
theorem shows_withdrawn_iff (hn : n.ledger.Orderly) {a : Exporter} {x : Meter}
    (hx : n.ledger.meter? a = some x) (hledger : m.ledger = n.ledger.withdrawn a x) (name : String)
    (c : Collector) : (m.exposition name).Shows c ↔
      (n.exposition name).Shows c ∧ ¬ (name = x.exposition ∧ x.instruments.Exports c) := by
  have hexposition : m.exposition name = _ := congrArg (fun l : Ledger => l.exposition name) hledger
  rw [hexposition]
  exact hn.shows_withdrawn_iff hx name c

theorem isForeign_of_isFair {e : Event} (he : e.isFair = true) : e.isForeign = true := by
  cases e <;> first | rfl | exact he

theorem ensureClosed_ensureClosed (r : Nat) (n : Node) :
    (n.ensureClosed r).ensureClosed r = n.ensureClosed r := by
  cases hd : (n.ensureClosed r).registryAt r with
  | some d =>
    rw [ensureClosed, closeDynamic_of_closed hd (closed_of_ensureClosed hd)]
  | none =>
    have hnone : (n.ensureClosed r).followers[r]? = none := Option.map_eq_none_iff.mp hd
    rw [ensureClosed, closeDynamic, hnone]

theorem shows_ensureClosed_iff (hn : n.ledger.Orderly) (hexporting : n.Exporting) {r : Nat} {f : Follower}
    (hf : n.followers[r]? = some f) (name : String) (c : Collector) :
    ((n.ensureClosed r).exposition name).Shows c ↔ (n.exposition name).Shows c ∧
      ¬ (name = f.exposition ∧ f.registry.instruments.Exports c) := by
  have hd : n.registryAt r = some f.registry := by simp [registryAt, hf]
  unfold ensureClosed
  cases hclosed : f.registry.closed with
  | true =>
    have hnothing := (hexporting.accounted r f hf).withdrawn hclosed c
    rw [closeDynamic_of_closed hd hclosed]
    exact (and_iff_left fun hexports => hnothing hexports.2).symm
  | false =>
    obtain ⟨m, hm⟩ := closeDynamic_of_open hd hclosed
    rw [hm]
    obtain ⟨g, hg, _, hledger⟩ := ledger_closeDynamic hm
    obtain rfl := Option.some.inj (hf.symm.trans hg)
    exact shows_withdrawn_iff hn (meter?_of_follower hf) hledger name c

theorem withdrawDynamic_of_follower {r : Nat} {f : Follower} (hf : n.followers[r]? = some f)
    {d : Dynamic} {e : Exposition} {notices : List Notice}
    (hw : f.registry.withdraw (n.exposition f.exposition) = (d, e, notices)) :
    n.withdrawDynamic r = ((n.modifyFollower r fun f => { f with registry := d }).setExposition
      f.exposition e).tell notices := by
  unfold withdrawDynamic
  rw [hf]
  simp only [hw]

theorem withdrawDynamic_withdrawDynamic (r : Nat) (n : Node) :
    (n.withdrawDynamic r).withdrawDynamic r = n.withdrawDynamic r := by
  cases hf : n.followers[r]? with
  | none =>
    have hsame : n.withdrawDynamic r = n := by
      unfold withdrawDynamic
      rw [hf]
    rw [hsame, hsame]
  | some f =>
    rcases hw : f.registry.withdraw (n.exposition f.exposition) with ⟨d, e, notices⟩
    have hfirst := withdrawDynamic_of_follower hf hw
    have hfollower : (n.withdrawDynamic r).followers[r]? = some { f with registry := d } := by
      simp [hfirst, tell, setExposition, modifyFollower, hf]
    have hshown : (n.withdrawDynamic r).exposition f.exposition = e := by
      have h := exposition_setExposition f.exposition f.exposition e
        (n.modifyFollower r fun f => { f with registry := d })
      rw [if_pos rfl] at h
      rw [hfirst]
      exact h
    have hagain : d.withdraw ((n.withdrawDynamic r).exposition f.exposition) = (d, e, []) := by
      rw [hshown]
      cases hw
      rfl
    rw [withdrawDynamic_of_follower hfollower hagain, hfirst]
    simp [tell, setExposition, modifyFollower, List.modify_modify_eq, Function.comp_def]

theorem exists_follower_of_meter? {r : Nat} {x : Meter} (hx : n.ledger.meter? (.registry r) = some x) :
    ∃ f, n.followers[r]? = some f ∧ f.meter = x :=
  Option.map_eq_some_iff.mp ((List.getElem?_map ..).symm.trans hx)

/-- Whoever gives his instruments up takes out of expositions what he exports and nothing else, and when he
does it again nothing happens. -/
theorem shows_of_givesUp (hn : n.ledger.Orderly) (hexporting : n.Exporting) {a : Exporter} {x : Meter}
    (hx : n.ledger.meter? a = some x) {e : Event} (he : GivesUp a e) :
    (∀ name c, ((n.occur e).exposition name).Shows c ↔ (n.exposition name).Shows c ∧
      ¬ (name = x.exposition ∧ x.instruments.Exports c)) ∧ (n.occur e).occur e = n.occur e := by
  cases he with
  | meter i => exact ⟨shows_withdrawn_iff hn hx (ledger_withdraw hx), withdraw_withdraw i n⟩
  | registry r =>
    obtain ⟨f, hf, rfl⟩ := exists_follower_of_meter? hx
    exact ⟨shows_withdrawn_iff hn hx (ledger_withdrawDynamic hf), withdrawDynamic_withdrawDynamic r n⟩
  | close r =>
    obtain ⟨f, hf, rfl⟩ := exists_follower_of_meter? hx
    exact ⟨shows_ensureClosed_iff hn hexporting hf, ensureClosed_ensureClosed r n⟩

/-- What has been given up is not exported any more. -/
theorem exists_givenUp (hexporting : n.Exporting) {a : Exporter} {x : Meter}
    (hx : n.ledger.meter? a = some x) {e : Event} (he : GivesUp a e) :
    ∃ y, (n.occur e).ledger.meter? a = some y ∧ ∀ c, ¬ y.instruments.Exports c := by
  cases he with
  | meter i =>
    have hledger : (n.occur (.withdraw i)).ledger = _ := ledger_withdraw hx
    rw [hledger]
    exact Ledger.meter?_withdrawn (.meter i) x n.ledger
  | registry r =>
    obtain ⟨f, hf, rfl⟩ := exists_follower_of_meter? hx
    have hledger : (n.occur (.withdrawDynamic r)).ledger = _ := ledger_withdrawDynamic hf
    rw [hledger]
    exact Ledger.meter?_withdrawn (.registry r) f.meter n.ledger
  | close r =>
    obtain ⟨f, hf, rfl⟩ := exists_follower_of_meter? hx
    change ∃ y, (n.ensureClosed r).ledger.meter? (.registry r) = some y ∧ _
    unfold ensureClosed
    split
    next m hm =>
      obtain ⟨g, _, _, hledger⟩ := ledger_closeDynamic hm
      rw [hledger]
      exact Ledger.meter?_withdrawn (.registry r) g.meter n.ledger
    next e he =>
      exact ⟨f.meter, hx, (hexporting.accounted r f hf).withdrawn
        (closed_of_closeDynamic he (registryAt_of_follower hf))⟩

theorem isFair_of_givesUp {a : Exporter} {e : Event} (he : GivesUp a e) : e.isFair = true := by
  cases he <;> rfl

theorem shows_createInstruments_of_error {exposition scope : String} {cause : MetricsError}
    (h : (n.createInstruments exposition scope).2 = .error cause) (name : String) (c : Collector) :
    ((n.createInstruments exposition scope).1.exposition name).Shows c ↔
      (n.exposition name).Shows c := by
  have hexposition : (n.createInstruments exposition scope).1.exposition name = _ :=
    congrArg (fun l : Ledger => l.exposition name) (ledger_createInstruments exposition scope n)
  rw [hexposition]
  change (if name = exposition then _ else n.exposition name).Shows c ↔ _
  split
  next hname =>
    rw [hname]
    exact Instruments.shows_create_of_error h c
  next => exact Iff.rfl

/-- However instruments are made and given up, by themselves or with registries, and whatever others
register besides: of those who share a scope and an exposition one at most exports the counter and one at
most the gauge, and a flag says just whether the own collector is found under its identity. Whoever gives
his instruments up takes out what he exports and nothing else, and nothing at all when he does so again, in
this or another way. What belongs to others stays. Instruments that are refused leave everything shown as
it was, wherever they are refused. -/
theorem exports_have_one_owner (es : List Event) (hes : ∀ e ∈ es, e.isFair = true) :
    let n := start.run es
    (∀ a b x y, n.ledger.meter? a = some x → n.ledger.meter? b = some y →
      x.exposition = y.exposition → x.instruments.scope = y.instruments.scope →
      (x.instruments.counterShown = true ∧ y.instruments.counterShown = true) ∨
        (x.instruments.gaugeShown = true ∧ y.instruments.gaugeShown = true) → a = b) ∧
    (∀ a x, n.ledger.meter? a = some x →
      (x.instruments.counterShown = true ↔ (n.exposition x.exposition).find?
        x.instruments.counter.identity = some x.instruments.counter) ∧
      (x.instruments.gaugeShown = true ↔ (n.exposition x.exposition).find?
        x.instruments.gauge.identity = some x.instruments.gauge)) ∧
    (∀ a x e, n.ledger.meter? a = some x → GivesUp a e →
      (∀ name c, ((n.occur e).exposition name).Shows c ↔ (n.exposition name).Shows c ∧
        ¬ (name = x.exposition ∧ x.instruments.Exports c)) ∧
      (n.occur e).occur e = n.occur e ∧
      ∀ e', GivesUp a e' → ∀ name c, (((n.occur e).occur e').exposition name).Shows c ↔
        ((n.occur e).exposition name).Shows c) ∧
    (∀ es', (∀ e ∈ es', e.isFair = true) → ∀ name c, c.source.owner? = none →
      (n.exposition name).Shows c → ((n.run es').exposition name).Shows c) ∧
    (∀ (k : Node) exposition scope cause, (k.createInstruments exposition scope).2 = .error cause →
      ∀ name c, ((k.createInstruments exposition scope).1.exposition name).Shows c ↔
        (k.exposition name).Shows c) := by
  intro n
  have hn : n.ledger.Orderly := orderly_ledger_start.entries (enters_run hes start)
  have hexporting : n.Exporting := exporting_start.run fun e he => isForeign_of_isFair (hes e he)
  refine ⟨?_, ?_, ?_, ?_, ?_⟩
  · rintro a b x y hx hy hplace hscope (⟨hcx, hcy⟩ | ⟨hgx, hgy⟩)
    · exact hn.eq_of_counterShown hx hy hplace hscope hcx hcy
    · exact hn.eq_of_gaugeShown hx hy hplace hscope hgx hgy
  · intro a x hx
    exact ⟨hn.counterShown_iff hx, hn.gaugeShown_iff hx⟩
  · intro a x e hx he
    obtain ⟨hshows, hagain⟩ := shows_of_givesUp hn hexporting hx he
    refine ⟨hshows, hagain, fun e' he' name c => ?_⟩
    obtain ⟨y, hy, hnothing⟩ := exists_givenUp hexporting hx he
    have hfair := isFair_of_givesUp he
    have hafter := hn.entries (enters_occur hfair n)
    rw [(shows_of_givesUp hafter (hexporting.occur (isForeign_of_isFair hfair)) hy he').1 name c]
    exact and_iff_left fun ⟨_, hexports⟩ => hnothing c hexports
  · intro es' hes' name c hforeign hc
    exact hn.foreign_entries (enters_run hes' n) hforeign hc
  · intro k exposition scope cause h name c
    exact shows_createInstruments_of_error h name c

def zoned : Collector where
  name := "late_invalid_update"
  description := ⟨"Number of namespace registry updates rejected",
    Keyed.empty.insert ⟨⟨"zone", by decide +kernel⟩, "eu"⟩, .empty⟩
  kind := .counter
  source := .fixed (some 1)

/-- Somebody else has the name of the gauge. A registry comes, and a meter that shares its scope, but none
that would show a counter without labels beside one with a label. -/
def smallOwners : List Event :=
  [.register "main" ⟨"app_current_version", .plain "Somebody else", .gauge, .fixed (some 1)⟩] ++ smallRun ++
    [.addMeter "main" "app", .register "main" zoned, .addMeter "main" "late"]

/-- The registry exports its counter, goes on doing so when the meter is given up, and does so no more when
it gives it up itself. -/
theorem exports_have_one_owner_small : ∃ x y,
    (start.run smallOwners).ledger.meter? (.registry 0) = some x ∧
    (start.run smallOwners).ledger.meter? (.meter 0) = some y ∧
    (start.run smallOwners).ledger.meter? (.meter 1) = none ∧
    x.instruments.counterShown = true ∧ x.instruments.gaugeShown = false ∧
    y.instruments.counterShown = false ∧
    ((start.run smallOwners).exposition "main").find? ⟨"app_invalid_update", []⟩ =
      some x.instruments.counter ∧
    (((start.run smallOwners).occur (.withdraw 0)).exposition "main").Shows x.instruments.counter ∧
    ¬ (((start.run smallOwners).occur (.withdrawDynamic 0)).exposition "main").Shows
      x.instruments.counter := by
  have hregistry : ((start.run smallOwners).ledger.meter? (.registry 0)).any (fun x =>
      x.exposition = "main" ∧ x.instruments.counterShown ∧ !x.instruments.gaugeShown ∧
        x.instruments.counter.identity = ⟨"app_invalid_update", []⟩) = true := by
    decide +kernel
  have hmeter : ((start.run smallOwners).ledger.meter? (.meter 0)).any (fun y =>
      !y.instruments.counterShown ∧ !y.instruments.gaugeShown) = true := by
    decide +kernel
  have hrefused : ((start.run smallOwners).ledger.meter? (.meter 1)).isNone = true := by decide +kernel
  have hfair : ∀ e ∈ smallOwners, e.isFair = true := by decide +kernel
  obtain ⟨x, hx, hxs⟩ := (Option.any_eq_true ..).mp hregistry
  obtain ⟨y, hy, hys⟩ := (Option.any_eq_true ..).mp hmeter
  obtain ⟨hplace, hcounter, hgauge, hidentity⟩ : x.exposition = "main" ∧
      x.instruments.counterShown = true ∧ x.instruments.gaugeShown = false ∧
        x.instruments.counter.identity = ⟨"app_invalid_update", []⟩ := by simpa using hxs
  obtain ⟨hnone, hnone'⟩ : y.instruments.counterShown = false ∧ y.instruments.gaugeShown = false := by
    simpa using hys
  obtain ⟨_, hflags, hgone, _⟩ := exports_have_one_owner smallOwners hfair
  have hfound := (hflags _ x hx).1.mp hcounter
  have hshown := Exposition.find?_eq_some_iff.mp hfound
  rw [hplace, hidentity] at hfound
  rw [hplace] at hshown
  refine ⟨x, y, hx, hy, Option.isNone_iff_eq_none.mp hrefused, hcounter, hgauge, hnone, hfound, ?_, ?_⟩
  · refine ((hgone _ y _ hy (.meter 0)).1 _ _).mpr ⟨hshown, ?_⟩
    rintro ⟨_, ⟨_, h⟩ | ⟨_, h⟩⟩
    · rw [hnone] at h
      cases h
    · rw [hnone'] at h
      cases h
  · intro hstill
    exact (((hgone _ x _ hx (.registry 0)).1 _ _).mp hstill).2 ⟨hplace.symm, Or.inl ⟨rfl, hcounter⟩⟩

end Node

end NamespaceTopology
