import NamespaceTopology.Proofs.Metrics.Exports
import NamespaceTopology.Proofs.Node.Moves
import NamespaceTopology.Proofs.Registry.Closing
import NamespaceTopology.Proofs.Store.Contents

set_option autoImplicit false

/-!
Every event, broken up into small changes. What holds of each small change holds of all that can happen
to a node, so whoever needs an invariant of nodes has to look at a dozen cases only.
-/
namespace NamespaceTopology

open NamespaceTopology.Dynamic (Move)

namespace Node

/-- The parts of a node that its registries and their metrics live from. -/
structure Inner where
  store : Store
  expositions : List (String × Exposition)
  nextOwner : Nat
  followers : List Follower
  tasks : List Task
  closeOnRead : Option Nat

def inner (n : Node) : Inner :=
  ⟨n.store, n.expositions, n.nextOwner, n.followers, n.tasks, n.closeOnRead⟩

theorem inner_addTask (t : Task) (n : Node) :
    (n.addTask t).inner = { n.inner with tasks := n.inner.tasks ++ [t] } := rfl

theorem inner_modifyInitializer (i : Nat) (f : Initializer → Initializer) (n : Node) :
    (n.modifyInitializer i f).inner = n.inner := rfl

theorem inner_endAttempt (a i : Nat) (stage : Stage) (n : Node) :
    (n.endAttempt a i stage).inner =
      { n.inner with tasks := n.inner.tasks.filter fun t => t ≠ .attempt a } := rfl

/-- What a registry with its tasks keeps, unless it is closed or its metrics are taken back. -/
structure Kept (f f' : Follower) : Prop where
  remote : f'.remote = f.remote
  exposition : f'.exposition = f.exposition
  registry : f'.registry = f.registry ∨
    ∃ m : Move, m.isWithdrawal = false ∧ f'.registry = f.registry.after m
  loopDone : f.loopDone = true → f'.loopDone = true
  samplerDone : f.samplerDone = true → f'.samplerDone = true

def Finished (n : Node) : Task → Prop
  | .updates r => ∀ f, n.followers[r]? = some f → f.loopDone = true
  | .samples r => ∀ f, n.followers[r]? = some f → f.samplerDone = true
  | .attempt _ | .consumer _ => True

/-- A change of the metrics only. What is shown after it was shown before, or it is owned by nobody, or by
somebody new. -/
structure Measures (n n' : Node) : Prop where
  store : n'.store = n.store
  followers : n'.followers = n.followers
  tasks : n'.tasks = n.tasks
  closeOnRead : n'.closeOnRead = n.closeOnRead
  owners : n.nextOwner ≤ n'.nextOwner
  shows (name : String) (c : Collector) : (n'.exposition name).Shows c →
    (n.exposition name).Shows c ∨
    ∀ o, c.source.owner? = some o → n.nextOwner ≤ o ∧ o < n'.nextOwner

/-- A small change of a node, in which somebody may close the registries of `C`, and so may a read that is
due to close one. -/
inductive Change (C : Nat → Prop) : Node → Node → Prop where
  | outside {n n' : Node} (h : n'.inner = n.inner) : Change C n n'
  | store (n : Node) {e : Store.Event} (he : e.writes = false) :
      Change C n { n with store := n.store.occur e }
  | follower (n : Node) (r : Nat) {g : Follower → Follower}
      (h : ∀ f, n.followers[r]? = some f → Kept f (g f)) : Change C n (n.modifyFollower r g)
  | close (n : Node) (due : Option Nat) {r : Nat} {f : Follower} {d : Dynamic} {e : Exposition}
      {notices : List Notice} (hf : n.followers[r]? = some f)
      (hclose : f.registry.close (n.exposition f.exposition) = .ok (d, e, notices))
      (h : (C r ∧ due = n.closeOnRead) ∨ (n.closeOnRead = some r ∧ due = none)) :
      Change C n (({ n with closeOnRead := due }.modifyFollower r fun f =>
        { f with registry := d }).setExposition f.exposition e)
  | withdraw (n : Node) {r : Nat} {f : Follower} (hf : n.followers[r]? = some f) :
      Change C n ((n.modifyFollower r fun f' =>
        { f' with registry := (f.registry.withdraw (n.exposition f.exposition)).1 }).setExposition
          f.exposition (f.registry.withdraw (n.exposition f.exposition)).2.1)
  /-- The registry that was due to be closed is closed already, or was never there. -/
  | forget (n : Node) {r : Nat} (hdue : n.closeOnRead = some r)
      (h : ∀ d, n.registryAt r = some d → d.closed = true) : Change C n { n with closeOnRead := none }
  | addTask (n : Node) (t : Task) : Change C n (n.addTask t)
  | endTask (n : Node) {t : Task} (h : n.Finished t) : Change C n (n.endTask t)
  | metrics {n n' : Node} (h : Measures n n') : Change C n n'

inductive Changes (C : Nat → Prop) : Node → Node → Prop where
  | refl (n : Node) : Changes C n n
  | next {n m k : Node} (h : Change C n m) (tail : Changes C m k) : Changes C n k

theorem Changes.of {C : Nat → Prop} {n m : Node} (h : Change C n m) : Changes C n m := .next h (.refl m)

theorem Changes.trans {C : Nat → Prop} {n m k : Node} (h : Changes C n m) (h' : Changes C m k) :
    Changes C n k := by
  induction h with
  | refl _ => exact h'
  | next hc _ ih => exact .next hc (ih h')

theorem Changes.outside {C : Nat → Prop} {n n' : Node} (h : n'.inner = n.inner) : Changes C n n' :=
  .of (.outside h)

theorem Changes.keep {C : Nat → Prop} {P : Node → Prop} (hP : ∀ n m, Change C n m → P n → P m)
    {n n' : Node} (h : Changes C n n') (hn : P n) : P n' := by
  induction h with
  | refl _ => exact hn
  | next hc _ ih => exact ih (hP _ _ hc hn)

/-! ### Metrics -/

theorem exposition_setExposition (name name' : String) (e : Exposition) (n : Node) :
    (n.setExposition name e).exposition name' = if name' = name then e else n.exposition name' := by
  unfold exposition setExposition
  by_cases h : name' = name
  · subst h
    rw [if_pos rfl, List.lookup_cons_self]
    rfl
  · have hother : (name' == name) = false := beq_eq_false_iff_ne.mpr h
    rw [if_neg h, List.lookup_cons, hother, Store.lookup_filter_ne h]

theorem shows_setExposition {name name' : String} {e : Exposition} {n : Node} {c : Collector}
    (h : ((n.setExposition name e).exposition name').Shows c) :
    (name' = name ∧ e.Shows c) ∨ (n.exposition name').Shows c := by
  rw [exposition_setExposition] at h
  split at h
  next hname => exact Or.inl ⟨hname, h⟩
  next => exact Or.inr h

theorem exposition_congr {n n' : Node} (h : n'.expositions = n.expositions) (name : String) :
    n'.exposition name = n.exposition name := by
  unfold exposition
  rw [h]

theorem Measures.of_inner {n n' : Node} (h : n'.inner = n.inner) : Measures n n' := by
  obtain ⟨hstore, hexpositions, howner, hfollowers, htasks, hclose⟩ := Inner.mk.inj h
  refine ⟨hstore, hfollowers, htasks, hclose, Nat.le_of_eq howner.symm, fun name c hc => Or.inl ?_⟩
  rwa [exposition_congr hexpositions] at hc

theorem Measures.trans {n m k : Node} (h : Measures n m) (h' : Measures m k) : Measures n k := by
  refine ⟨h'.store.trans h.store, h'.followers.trans h.followers, h'.tasks.trans h.tasks,
    h'.closeOnRead.trans h.closeOnRead, Nat.le_trans h.owners h'.owners, fun name c hc => ?_⟩
  rcases h'.shows name c hc with hold | hnew
  · refine (h.shows name c hold).imp_right fun hnew o ho => ?_
    exact ⟨(hnew o ho).1, Nat.lt_of_lt_of_le (hnew o ho).2 h'.owners⟩
  · exact Or.inr fun o ho => ⟨Nat.le_trans h.owners (hnew o ho).1, (hnew o ho).2⟩

theorem measures_setExposition {name : String} {e : Exposition} {n : Node}
    (h : ∀ c, e.Shows c → (n.exposition name).Shows c) : Measures n (n.setExposition name e) := by
  refine ⟨rfl, rfl, rfl, rfl, Nat.le_refl _, fun name' c hc => Or.inl ?_⟩
  rcases shows_setExposition hc with ⟨rfl, hshows⟩ | hold
  · exact h c hshows
  · exact hold

theorem measures_createInstruments (exposition scope : String) (n : Node) :
    Measures n (n.createInstruments exposition scope).1 := by
  refine ⟨rfl, rfl, rfl, rfl, Nat.le_succ _, fun name c hc => ?_⟩
  rcases shows_setExposition hc with ⟨rfl, hshows⟩ | hold
  · refine (Instruments.shows_create hshows).imp_right fun ⟨howner, _⟩ o ho => ?_
    rw [howner] at ho
    obtain rfl := Option.some.inj ho
    exact ⟨Nat.le_refl _, Nat.lt_succ_self _⟩
  · exact Or.inl hold

theorem measures_addMeter (exposition scope : String) (n : Node) :
    Measures n (n.addMeter exposition scope).1 := by
  have h := measures_createInstruments exposition scope n
  unfold addMeter
  rcases hc : n.createInstruments exposition scope with ⟨m, made⟩
  rw [hc] at h
  cases made with
  | ok i => exact h.trans (.of_inner rfl)
  | error cause => exact h

theorem measures_withdraw (m : Nat) (n : Node) : Measures n (n.withdraw m) := by
  unfold withdraw
  split
  · exact .of_inner rfl
  next x _ =>
    refine Measures.trans (m := n.modifyMeter m fun _ =>
      (x.instruments.withdraw (n.exposition x.exposition)).1) (.of_inner rfl) ?_
    refine Measures.trans (measures_setExposition fun c hc => ?_) (.of_inner rfl)
    exact (Instruments.shows_withdraw hc).1

theorem measures_unregister (exposition : String) (c : Collector) (n : Node) :
    Measures n (n.unregister exposition c).1 := by
  unfold unregister
  split
  next e he => exact measures_setExposition fun c' hc' => (Exposition.shows_unregister he hc').1
  next => exact .of_inner rfl

theorem shows_createInstruments {exposition scope name : String} {n : Node} {i : Instruments}
    {c : Collector} (hmade : (n.createInstruments exposition scope).2 = .ok i)
    (hc : ((n.createInstruments exposition scope).1.exposition name).Shows c) :
    (n.exposition name).Shows c ∨ (name = exposition ∧ i.Exports c) := by
  rcases shows_setExposition hc with ⟨rfl, hshows⟩ | hold
  · exact (Instruments.shows_create hshows).imp_right fun ⟨_, hexports⟩ => ⟨rfl, hexports i hmade⟩
  · exact Or.inl hold

/-! ### The remote side -/

theorem changes_tell {C : Nat → Prop} (notices : List Notice) (n : Node) :
    Changes C n (n.tell notices) := .outside rfl

theorem changes_takeSignal {C : Nat → Prop} (remote : Remote) (n : Node) :
    Changes C n (n.takeSignal remote).1 := by
  cases remote with
  | watch w => exact .of (.store n (e := .look w) rfl)
  | feed => exact .outside rfl

theorem changes_closeRemote {C : Nat → Prop} (remote : Remote) (n : Node) :
    Changes C n (n.closeRemote remote) := by
  cases remote with
  | watch w => exact .of (.store n (e := .closeWatch w) rfl)
  | feed => exact .outside rfl

theorem changes_dropRemote {C : Nat → Prop} (remote : Remote) (n : Node) :
    Changes C n (n.dropRemote remote) := by
  cases remote with
  | watch w => exact .of (.store n (e := .dropWatch w) rfl)
  | feed => exact .refl n

theorem changes_follow {C : Nat → Prop} {client : Client} {key : String} {n m : Node}
    {remote : Remote} (h : n.follow client key = .ok (m, remote)) : Changes C n m := by
  cases follow_step h with
  | store => exact .of (.store n (e := .watch key) rfl)
  | service _ => exact .outside rfl

/-! ### Closing -/

/-- Only a registry that is closed, or that is not there, cannot be closed. -/
theorem closed_of_closeDynamic {r : Nat} {n : Node} {e : Error} (h : n.closeDynamic r = .error e)
    {d : Dynamic} (hd : n.registryAt r = some d) : d.closed = true := by
  obtain ⟨f, hf, rfl⟩ := Option.map_eq_some_iff.mp hd
  cases hc : f.registry.closed with
  | true => rfl
  | false =>
    obtain ⟨d', e', notices, hclose⟩ := Dynamic.exists_close hc (n.exposition f.exposition)
    simp [closeDynamic, hf, hclose, bind, Except.bind, pure, Except.pure] at h

theorem changes_closeDynamic {C : Nat → Prop} {r : Nat} {n m : Node} (h : n.closeDynamic r = .ok m)
    (hr : C r) : Changes C n m := by
  obtain ⟨f, d, e, notices, hf, hc, rfl⟩ := closeDynamic_eq_ok h
  exact (Changes.of (.close n n.closeOnRead hf hc (Or.inl ⟨hr, rfl⟩))).trans
    ((changes_tell notices _).trans (changes_closeRemote f.remote _))

theorem changes_ensureClosed {C : Nat → Prop} {r : Nat} (hr : C r) (n : Node) :
    Changes C n (n.ensureClosed r) := by
  unfold ensureClosed
  split
  next m hm => exact changes_closeDynamic hm hr
  next => exact .refl n

theorem changes_withdrawDynamic {C : Nat → Prop} (r : Nat) (n : Node) :
    Changes C n (n.withdrawDynamic r) := by
  unfold withdrawDynamic
  split
  next => exact .refl n
  next f hf => exact (Changes.of (.withdraw n hf)).trans (changes_tell _ _)

theorem changes_readRemote {C : Nat → Prop} (remote : Remote) (n : Node) :
    Changes C n (n.readRemote remote).1 := by
  have hstep := read_step remote n
  generalize (n.readRemote remote).1 = m at hstep ⊢
  cases hstep with
  | watch => exact .refl n
  | feed _ => exact .outside rfl
  | @closes r hr =>
    -- The read closes the registry that was due, and from then on none is.
    let read : Node := { n with feed := { n.feed with reads := n.feed.reads + 1 } }
    refine .next (m := read) (.outside rfl) ?_
    unfold ensureClosed
    split
    next m hm =>
      obtain ⟨f, d, e, notices, hf, hc, rfl⟩ := closeDynamic_eq_ok hm
      exact (Changes.of (.close read none hf hc (Or.inr ⟨hr, rfl⟩))).trans
        ((changes_tell notices _).trans (changes_closeRemote f.remote _))
    next e he => exact .of (.forget read hr fun d hd => closed_of_closeDynamic he hd)

/-! ### Subscriptions -/

theorem changes_modifyHub {C : Nat → Prop} (source : Source) (change : {α : Type} → Hub α → Hub α)
    (n : Node) (h : ∀ d : Dynamic, ∃ m : Move, m.isWithdrawal = false ∧
      { d with hub := change d.hub } = d.after m) : Changes C n (n.modifyHub source change) := by
  cases source with
  | hub _ | static _ => exact .outside rfl
  | dynamic r =>
    refine .of (.follower n r fun f _ => ?_)
    exact ⟨rfl, rfl, Or.inr (h f.registry), id, id⟩

theorem changes_next {C : Nat → Prop} (source : Source) (id : Nat) (n : Node) :
    Changes C n (n.next source id).1 :=
  changes_modifyHub source (fun h => (h.next id).1) n fun _ => ⟨.next id, rfl, rfl⟩

theorem changes_unsubscribe {C : Nat → Prop} (source : Source) (id : Nat) (n : Node) :
    Changes C n (n.unsubscribe source id) :=
  changes_modifyHub source (fun h => h.drop id) n fun _ => ⟨.drop id, rfl, rfl⟩

theorem changes_watch {C : Nat → Prop} (source : Source) (n : Node) :
    Changes C n (n.occur (.watch source)) := by
  have hstep := watch_step source n
  generalize n.occur (.watch source) = m at hstep ⊢
  cases hstep with
  | refused _ | static _ _ | hub _ _ => exact .outside rfl
  | @dynamic r f d id hf hw =>
    refine .of (.follower n r (g := fun g => { g with registry := d }) fun g hg => ?_)
    obtain rfl := Option.some.inj (hf.symm.trans hg)
    refine ⟨rfl, rfl, Or.inr ⟨.watch, rfl, ?_⟩, fun h => h, fun h => h⟩
    simp [Dynamic.after, hw]

/-! ### Tasks -/

theorem changes_endLoop {C : Nat → Prop} (r : Nat) (n : Node) : Changes C n (n.endLoop r) := by
  refine .next (.follower n r (g := fun f => { f with loopDone := true }) fun f _ => ?_) ?_
  · exact ⟨rfl, rfl, Or.inl rfl, fun _ => rfl, fun h => h⟩
  · refine .of (.endTask _ fun f hf => ?_)
    simp only [modifyFollower, List.getElem?_modify_eq] at hf
    obtain ⟨x, _, rfl⟩ := Option.map_eq_some_iff.mp hf
    rfl

theorem changes_wake {C : Nat → Prop} (r : Nat) (content : Option Value) (n : Node) :
    Changes C n (n.wake r content) := by
  unfold wake
  cases hf : n.followers[r]? with
  | none => exact .refl n
  | some f =>
    refine (Changes.of (.follower n r (g := fun g =>
      { g with registry := (f.registry.receive content).1 }) fun g hg => ?_)).trans (changes_tell _ _)
    obtain rfl := Option.some.inj (hf.symm.trans hg)
    exact ⟨rfl, rfl, Or.inr ⟨.receive content, rfl, rfl⟩, fun h => h, fun h => h⟩

def loopEnds (r : Nat) (n : Node) : Bool :=
  (n.followers[r]?).any fun f => !f.registry.closed && (n.takeSignal f.remote).2 = .ended

theorem changes_stepUpdates {C : Nat → Prop} {r : Nat} {n : Node} (hr : n.loopEnds r = true → C r) :
    Changes C n (n.stepUpdates r) := by
  have hstep := update_step r n
  generalize n.stepUpdates r = m at hstep ⊢
  cases hstep with
  | gone hf =>
    refine .of (.endTask n fun f hf' => ?_)
    rw [hf] at hf'
    cases hf'
  | ends _ _ => exact changes_endLoop r n
  | waits _ _ _ => exact changes_takeSignal _ n
  | ended hf hopen hs =>
    have hC : C r := hr (by simp [loopEnds, hf, hs, hopen])
    exact ((changes_takeSignal _ n).trans (changes_ensureClosed hC _)).trans (changes_endLoop r _)
  | wakes _ _ _ =>
    exact ((changes_takeSignal _ n).trans (changes_readRemote _ _)).trans (changes_wake r _ _)

theorem changes_stepSamples {C : Nat → Prop} (r : Nat) (n : Node) :
    Changes C n (n.stepSamples r) := by
  have hstep := sample_step r n
  generalize n.stepSamples r = m at hstep ⊢
  cases hstep with
  | gone hf =>
    refine .of (.endTask n fun f hf' => ?_)
    rw [hf] at hf'
    cases hf'
  | ends _ _ =>
    refine .next (.follower n r (g := fun f => { f with samplerDone := true }) fun f _ => ?_) ?_
    · exact ⟨rfl, rfl, Or.inl rfl, fun h => h, fun _ => rfl⟩
    · refine .of (.endTask _ fun g hg => ?_)
      simp only [modifyFollower, List.getElem?_modify_eq] at hg
      obtain ⟨x, _, rfl⟩ := Option.map_eq_some_iff.mp hg
      rfl
  | samples _ _ _ =>
    refine .of (.follower n r fun g _ => ?_)
    exact ⟨rfl, rfl, Or.inr ⟨.sample, rfl, rfl⟩, fun h => h, fun h => h⟩
  | waits _ _ _ => exact .refl n

theorem changes_stepConsumer {C : Nat → Prop} (c : Nat) (n : Node) :
    Changes C n (n.stepConsumer c) := by
  have hend (m : Node) : Changes C m (m.endTask (.consumer c)) := .of (.endTask m trivial)
  have hanswered (m : Node) (f : Consumer → Consumer) : Changes C m (m.modifyConsumer c f) :=
    .outside rfl
  have hstep := consume_step c n
  generalize n.stepConsumer c = m at hstep ⊢
  cases hstep with
  | gone _ => exact hend n
  | waits _ _ _ => exact changes_next _ _ n
  | takes _ _ _ => exact (changes_next _ _ n).trans (hanswered _ _)
  | stops _ _ _ => exact ((changes_next _ _ n).trans (hanswered _ _)).trans (hend _)

theorem changes_release {C : Nat → Prop} (h : Handles) (n : Node) : Changes C n (n.release h) :=
  release_related (R := Changes C) .refl (fun _ _ _ => .trans)
    (fun n w => .of (.store n (e := .dropWatch w) rfl))
    (fun n source id => changes_unsubscribe source id n) h n

/-! ### Calls -/

/-- A registry is founded on what its remote side holds, with instruments of its own, and its two tasks
stand by. -/
structure Founds (n n' : Node) (f : Follower) : Prop where
  followers : n'.followers = n.followers ++ [f]
  store : n'.store = n.store
  closeOnRead : n'.closeOnRead = n.closeOnRead
  start : IsStart f.registry
  content : ∀ w, f.remote = .watch w → n.store.contentOf w = f.registry.value
  owner : f.registry.instruments.owner = n.nextOwner
  nextOwner : n'.nextOwner = n.nextOwner + 1
  shows (name : String) (c : Collector) : (n'.exposition name).Shows c →
    (n.exposition name).Shows c ∨ (name = f.exposition ∧ f.registry.instruments.Exports c)
  loop : .updates n.followers.length ∈ n'.tasks
  sampler : .samples n.followers.length ∈ n'.tasks
  tasks : ∀ t ∈ n.tasks, (∀ a, t ≠ .attempt a) → t ∈ n'.tasks

/-- Small changes, and perhaps a registry that is founded in the end. -/
def Becomes (C : Nat → Prop) (n n' : Node) : Prop :=
  ∃ m, Changes C n m ∧ (n'.inner = m.inner ∨ ∃ f, Founds m n' f)

theorem Becomes.of_changes {C : Nat → Prop} {n n' : Node} (h : Changes C n n') : Becomes C n n' :=
  ⟨n', h, Or.inl rfl⟩

theorem Becomes.after {C : Nat → Prop} {n m n' : Node} (h : Changes C n m) (h' : Becomes C m n') :
    Becomes C n n' := by
  obtain ⟨k, hk, hn'⟩ := h'
  exact ⟨k, h.trans hk, hn'⟩

theorem changes_endAttempt {C : Nat → Prop} (a i : Nat) (stage : Stage) (n : Node) :
    Changes C n (n.endAttempt a i stage) :=
  .next (m := (n.modifyAttempt a fun x => { x with stage }).modifyInitializer i fun x =>
    { x with queue := x.queue.filter fun b => b ≠ a }) (.outside rfl) (.of (.endTask _ trivial))

theorem changes_fail {C : Nat → Prop} (a i : Nat) (remote : Remote) (e : Error) (n : Node) :
    Changes C n (n.fail a i remote e) :=
  ((changes_closeRemote remote n).trans (changes_dropRemote remote _)).trans (changes_endAttempt a i _ _)

theorem changes_abandon {C : Nat → Prop} (a i : Nat) (stage : Stage) (n : Node) :
    Changes C n (n.abandon a i stage) := by
  unfold abandon
  cases stage with
  | waiting remote deadline => exact (changes_dropRemote remote n).trans (changes_endAttempt a i _ _)
  | fresh | queued | finished _ | abandoned => exact changes_endAttempt a i _ n

theorem inner_createInstruments (exposition scope : String) (n : Node) :
    (n.createInstruments exposition scope).1.inner = { n.inner with
      expositions := (n.createInstruments exposition scope).1.expositions
      nextOwner := n.nextOwner + 1 } := rfl

theorem becomes_build {C : Nat → Prop} {a i : Nat} {o : DynamicOptions} {remote : Remote}
    {first : Option (Value × Topology)} {n : Node}
    (hfirst : ∀ v t, first = some (v, t) → v.topology = .ok t)
    (hcontent : ∀ w, remote = .watch w → n.store.contentOf w = first.map Prod.fst) :
    Becomes C n (n.build a i o remote first) := by
  have hinner := inner_createInstruments o.exposition o.scope n
  have hmeasures := measures_createInstruments o.exposition o.scope n
  have hshows (name : String) (i : Instruments) (c : Collector) :=
    @shows_createInstruments o.exposition o.scope name n i c
  have howns (i : Instruments) (hi : (n.createInstruments o.exposition o.scope).2 = .ok i) :
      i.owner = n.nextOwner := Instruments.owner_of_create hi
  have hstep := build_step a i o remote first n
  generalize n.build a i o remote first = built at hstep ⊢
  cases hstep with
  | fails hmade =>
    rw [hmade] at hmeasures
    have hchanges := Changes.of (C := C) (.metrics hmeasures)
    exact .of_changes ((hchanges.trans (changes_tell _ _)).trans (changes_fail a i remote _ _))
  | @founds m instruments f hmade hf =>
    rw [hmade] at hinner hmeasures hshows howns
    obtain ⟨hstore, _, howner, hfollowers, htasks, hclose⟩ := Inner.mk.inj hinner
    let k : Node := { m with followers := m.followers ++ [f] }
    let built : Node := (((k.addTask (.updates m.followers.length)).addTask
      (.samples m.followers.length)).modifyInitializer i fun x =>
        { x with registry := some m.followers.length }).endAttempt a i
          (.finished (.ok m.followers.length))
    have hk : k.inner = { m.inner with followers := m.followers ++ [f] } := rfl
    have hbuilt : built.inner = { m.inner with
        followers := m.followers ++ [f]
        tasks := (m.inner.tasks ++ [Task.updates m.followers.length] ++
          [Task.samples m.followers.length]).filter fun t => t ≠ Task.attempt a } := by
      simp only [built, inner_endAttempt, inner_modifyInitializer, inner_addTask, hk]
    obtain ⟨hstore', hexpositions, howner', hfollowers', htasks', hclose'⟩ := Inner.mk.inj hbuilt
    change Becomes C n built
    rw [hfollowers] at hfollowers' htasks'
    subst hf
    refine ⟨n, .refl n, Or.inr ⟨_, hfollowers', hstore'.trans hstore, hclose'.trans hclose,
      ⟨o, instruments, first, rfl, hfirst⟩, hcontent, howns instruments rfl, howner'.trans howner,
      ?_, ?_, ?_, ?_⟩⟩
    · intro name c hshown
      rw [exposition_congr hexpositions] at hshown
      exact hshows name instruments c rfl hshown
    · rw [htasks']
      refine List.mem_filter.mpr ⟨?_, by simp⟩
      exact List.mem_append_left _ (List.mem_append_right _ List.mem_cons_self)
    · rw [htasks']
      refine List.mem_filter.mpr ⟨?_, by simp⟩
      exact List.mem_append_right _ List.mem_cons_self
    · intro t ht hcall
      rw [htasks']
      refine List.mem_filter.mpr ⟨?_, by simpa using hcall a⟩
      have hkept : t ∈ m.inner.tasks := by
        change t ∈ n.inner.tasks at ht
        rwa [← htasks] at ht
      exact List.mem_append_left _ (List.mem_append_left _ hkept)

theorem becomes_conclude {C : Nat → Prop} (a i : Nat) (o : DynamicOptions) (remote : Remote)
    (n : Node) : Becomes C n (n.conclude a i o remote) := by
  have hfail (m : Node) (notices : List Notice) (e : Error) :
      Becomes C m ((m.tell notices).fail a i remote e) :=
    .of_changes ((changes_tell notices m).trans (changes_fail a i remote e _))
  have hcontent (w : Nat) (hw : remote = .watch w) := contentOf_readRemote hw n
  have hstep := conclude_step a i o remote n
  generalize n.conclude a i o remote = m at hstep ⊢
  refine Becomes.after (changes_readRemote remote n) ?_
  cases hstep with
  | builds hv ht =>
    refine becomes_build (fun w u hw => ?_) fun w hw => (hcontent w hw).trans hv
    obtain ⟨rfl, rfl⟩ := Prod.mk.inj (Option.some.inj hw)
    exact ht
  | empty hv _ => exact becomes_build (fun v t h => by cases h) fun w hw => (hcontent w hw).trans hv
  | invalid _ _ | absent _ _ => exact hfail _ _ _

theorem becomes_await {C : Nat → Prop} (a i : Nat) (o : DynamicOptions) (remote : Remote)
    (deadline : Nat) (n : Node) : Becomes C n (n.await a i o remote deadline) := by
  have hstep := await_step a i o remote deadline n
  generalize n.await a i o remote deadline = m at hstep ⊢
  refine Becomes.after (changes_takeSignal remote n) ?_
  cases hstep with
  | changed _ => exact becomes_conclude a i o remote _
  | ended _ => exact Becomes.after (changes_tell _ _) (becomes_conclude a i o remote _)
  | late _ _ => exact .of_changes ((changes_tell _ _).trans (changes_fail a i remote _ _))
  | waits _ _ => exact .of_changes (.outside rfl)

theorem becomes_takeTurn {C : Nat → Prop} (a i : Nat) (x : Initializer) (n : Node) :
    Becomes C n (n.takeTurn a i x) := by
  have hstep := turn_step a i x n
  generalize n.takeTurn a i x = m at hstep ⊢
  cases hstep with
  | stands _ | invalid _ _ | unfollowed _ _ _ _ => exact .of_changes (changes_endAttempt a i _ n)
  | concludes _ _ _ hf _ => exact Becomes.after (changes_follow hf) (becomes_conclude a i x.options _ _)
  | awaits _ _ _ hf _ => exact Becomes.after (changes_follow hf) (becomes_await a i x.options _ _ _)

theorem becomes_stepAttempt {C : Nat → Prop} (a : Nat) (n : Node) :
    Becomes C n (n.stepAttempt a) := by
  have hturned := turned_stepAttempt a n
  generalize n.stepAttempt a = m at hturned ⊢
  cases hturned with
  | stays => exact .of_changes (.refl n)
  | ends => exact .of_changes (.of (.endTask n trivial))
  | @abandons x _ _ => exact .of_changes (changes_abandon a x.initializer x.stage n)
  | queues _ _ _ _ => exact .of_changes (.outside rfl)
  | @takes x y m _ _ hm =>
    have hreached : Changes C n m := by
      cases hm <;> exact .outside rfl
    exact Becomes.after hreached (becomes_takeTurn a x.initializer y m)
  | @resumes x y remote deadline _ _ _ => exact becomes_await a x.initializer y.options remote deadline n

/-! ### Events -/

/-- Whether an event is an attempt to close a registry: a call, or the end of the stream. -/
def closing (r : Nat) (n : Node) : Event → Bool
  | .close source => source = .dynamic r
  | .streamEnd s => s = r
  | .turn (.updates s) => s = r && n.loopEnds r
  | _ => false

def Event.isDirect : Event → Bool
  | .store _ | .closeOnRead _ | .register _ _ => true
  | _ => false

theorem Founds.congr {n m n' : Node} {f : Follower} (h : Founds n m f) (hm : n'.inner = m.inner) :
    Founds n n' f := by
  obtain ⟨hstore, hexpositions, howner, hfollowers, htasks, hclose⟩ := Inner.mk.inj hm
  refine ⟨hfollowers.trans h.followers, hstore.trans h.store, hclose.trans h.closeOnRead, h.start,
    h.content, h.owner, howner.trans h.nextOwner, ?_, ?_, ?_, ?_⟩
  · intro name c hc
    rw [exposition_congr hexpositions] at hc
    exact h.shows name c hc
  · rw [htasks]
    exact h.loop
  · rw [htasks]
    exact h.sampler
  · rw [htasks]
    exact h.tasks

theorem Becomes.congr {C : Nat → Prop} {n m n' : Node} (h : Becomes C n m)
    (hm : n'.inner = m.inner) : Becomes C n n' := by
  obtain ⟨k, hk, hsame | ⟨f, hf⟩⟩ := h
  · exact ⟨k, hk, Or.inl (hm.trans hsame)⟩
  · exact ⟨k, hk, Or.inr ⟨f, hf.congr hm⟩⟩

/-- It does not matter how the tasks stand in line after a step of one of them. -/
theorem Becomes.queued {C : Nat → Prop} {n m : Node} (h : Becomes C n m) (t : Task) :
    Becomes C n (m.dequeue t).refresh := h.congr rfl

theorem becomes_turn (t : Task) (n : Node) :
    Becomes (fun r => n.closing r (.turn t) = true) n (n.turn t) := by
  cases t with
  | updates r =>
    have hstep : Changes (fun s => n.closing s (.turn (.updates r)) = true) n (n.stepUpdates r) :=
      changes_stepUpdates fun hends => by simp [closing, hends]
    exact (Becomes.of_changes hstep).queued (.updates r)
  | samples r => exact (Becomes.of_changes (changes_stepSamples r n)).queued (.samples r)
  | attempt a => exact (becomes_stepAttempt a n).queued (.attempt a)
  | consumer c => exact (Becomes.of_changes (changes_stepConsumer c n)).queued (.consumer c)

theorem inner_register (exposition : String) (c : Collector) (n : Node) :
    (n.occur (.register exposition c)).inner =
      { n.inner with expositions := (n.occur (.register exposition c)).expositions } := by
  rcases register_cases exposition c n with h | ⟨_, _, h⟩ <;> rw [h] <;> rfl

theorem inner_publish (h : Nat) (s : String) (n : Node) :
    (n.occur (.publish h s)).inner = n.inner := by
  rcases publish_cases h s n with heq | ⟨_, _, _, _, heq⟩ <;> exact (congrArg inner heq).trans rfl

theorem inner_look (c : Nat) (n : Node) : (n.look c).1.inner = n.inner := by
  unfold look
  split <;> rfl

theorem inner_join (c : Nat) (n : Node) : (n.join c).1.inner = n.inner := by
  unfold join
  split <;> rfl

theorem changes_close {C : Nat → Prop} {source : Source} (hC : ∀ r, source = .dynamic r → C r)
    (n : Node) : Changes C n (n.occur (.close source)) := by
  have hstep := close_step source n
  generalize n.occur (.close source) = m at hstep ⊢
  cases hstep with
  | refused _ | static _ _ | hub _ _ => exact .outside rfl
  | @dynamic r m hc => exact changes_closeDynamic hc (hC r rfl)

/-- Every event that is not direct is a series of small changes, and may found a registry. -/
theorem becomes_occur {e : Event} (he : e.isDirect = false) (n : Node) :
    Becomes (fun r => n.closing r e = true) n (n.occur e) := by
  cases e with
  | store _ | closeOnRead _ | register _ _ => cases he
  | feed _ | count _ _ | report _ _ | addHub _ | addStatic _ | addInitializer _ | call _ | cancel _
  | readNotices | refresh | pass _ => exact .of_changes (.outside rfl)
  | publish h s => exact .of_changes (.outside (inner_publish h s n))
  | look c => exact .of_changes (.outside (inner_look c n))
  | join c => exact .of_changes (.outside (inner_join c n))
  | consume source id collects =>
    let x : Consumer := ⟨source, some id, collects, [], false⟩
    exact .of_changes (.next (m := { n with consumers := n.consumers ++ [x] }) (.outside rfl)
      (.of (.addTask _ _)))
  | spawnInit i =>
    exact .of_changes (.next (m := (n.call i).1) (.outside rfl) (.of (.addTask _ _)))
  | addMeter exposition scope =>
    exact .of_changes (.of (.metrics (measures_addMeter exposition scope n)))
  | withdraw m => exact .of_changes (.of (.metrics (measures_withdraw m n)))
  | withdrawDynamic r => exact .of_changes (changes_withdrawDynamic r n)
  | unregister exposition c =>
    exact .of_changes (.of (.metrics (measures_unregister exposition c n)))
  | watch source => exact .of_changes (changes_watch source n)
  | close source =>
    refine .of_changes (changes_close (fun r hr => ?_) n)
    simp [closing, hr]
  | next source id => exact .of_changes (changes_next source id n)
  | unsubscribe source id => exact .of_changes (changes_unsubscribe source id n)
  | release h => exact .of_changes (changes_release h n)
  | turn t => exact becomes_turn t n
  | wake r content => exact .of_changes (changes_wake r content n)
  | streamEnd r =>
    refine .of_changes ((changes_ensureClosed ?_ n).trans (changes_endLoop r _))
    simp [closing]

/-! ### What small changes keep -/

theorem Change.store_cases {C : Nat → Prop} {n n' : Node} (h : Change C n n') :
    n'.store = n.store ∨ ∃ e : Store.Event, e.writes = false ∧ n'.store = n.store.occur e := by
  cases h with
  | outside h => exact Or.inl (congrArg Inner.store h)
  | @store e he => exact Or.inr ⟨e, he, rfl⟩
  | follower _ _ | close _ _ _ _ | withdraw _ | forget _ _ | addTask _ | endTask _ => exact Or.inl rfl
  | metrics h => exact Or.inl h.store

theorem Change.length_followers {C : Nat → Prop} {n n' : Node} (h : Change C n n') :
    n'.followers.length = n.followers.length := by
  cases h with
  | outside h => exact congrArg (fun i : Inner => i.followers.length) h
  | store _ | forget _ _ | addTask _ | endTask _ => rfl
  | metrics h => rw [h.followers]
  | follower r h => exact List.length_modify ..
  | close due hf hclose h => exact List.length_modify ..
  | withdraw hf => exact List.length_modify ..

theorem Changes.length_followers {C : Nat → Prop} {n n' : Node} (h : Changes C n n') :
    n'.followers.length = n.followers.length := by
  induction h with
  | refl _ => rfl
  | next hc _ ih => rw [ih, hc.length_followers]

structure Persists (f f' : Follower) : Prop where
  remote : f'.remote = f.remote
  exposition : f'.exposition = f.exposition
  key : f'.registry.key = f.registry.key
  owner : f'.registry.instruments.owner = f.registry.instruments.owner
  closed : f.registry.closed = true → f'.registry.closed = true
  loopDone : f.loopDone = true → f'.loopDone = true
  samplerDone : f.samplerDone = true → f'.samplerDone = true

theorem Persists.refl (f : Follower) : Persists f f := ⟨rfl, rfl, rfl, rfl, id, id, id⟩

theorem Persists.trans {f g h : Follower} (hfg : Persists f g) (hgh : Persists g h) : Persists f h :=
  ⟨hgh.remote.trans hfg.remote, hgh.exposition.trans hfg.exposition, hgh.key.trans hfg.key,
    hgh.owner.trans hfg.owner, fun hc => hgh.closed (hfg.closed hc), fun hd => hgh.loopDone (hfg.loopDone hd),
    fun hd => hgh.samplerDone (hfg.samplerDone hd)⟩

theorem Kept.closed {f f' : Follower} (h : Kept f f') : f'.registry.closed = f.registry.closed := by
  rcases h.registry with hsame | ⟨m, hm, hafter⟩
  · rw [hsame]
  · rw [hafter]
    exact Dynamic.closed_after (Dynamic.isClose_of_isWithdrawal hm)

theorem Kept.key {f f' : Follower} (h : Kept f f') : f'.registry.key = f.registry.key := by
  rcases h.registry with hsame | ⟨m, _, hafter⟩
  · rw [hsame]
  · rw [hafter]
    exact Dynamic.key_after f.registry m

theorem Kept.owner {f f' : Follower} (h : Kept f f') :
    f'.registry.instruments.owner = f.registry.instruments.owner := by
  rcases h.registry with hsame | ⟨m, _, hafter⟩
  · rw [hsame]
  · rw [hafter]
    exact Dynamic.owner_after f.registry m

theorem Kept.persists {f f' : Follower} (h : Kept f f') : Persists f f' :=
  ⟨h.remote, h.exposition, h.key, h.owner, fun hc => h.closed.trans hc, h.loopDone, h.samplerDone⟩

/-- A registry comes through a small change as it does, or somebody closes it who may. -/
theorem Change.follower_cases {C : Nat → Prop} {n n' : Node} (h : Change C n n') {r : Nat}
    {f : Follower} (hf : n.followers[r]? = some f) : ∃ f', n'.followers[r]? = some f' ∧
      Persists f f' ∧ (f'.registry.closed = f.registry.closed ∨ (f.registry.closed = false ∧
        f'.registry.closed = true ∧ (C r ∨ (n.closeOnRead = some r ∧ n'.closeOnRead = none)))) := by
  have hkept {n' : Node} (h : n'.followers = n.followers) : ∃ f', n'.followers[r]? = some f' ∧
      Persists f f' ∧ (f'.registry.closed = f.registry.closed ∨ (f.registry.closed = false ∧
        f'.registry.closed = true ∧ (C r ∨ (n.closeOnRead = some r ∧ n'.closeOnRead = none)))) :=
    ⟨f, h ▸ hf, .refl f, Or.inl rfl⟩
  have hother {s : Nat} (g : Follower → Follower) (hs : s ≠ r) :
      (n.followers.modify s g)[r]? = some f := by
    rw [List.getElem?_modify_ne _ _ hs, hf]
  cases h with
  | outside h => exact hkept (congrArg Inner.followers h)
  | store _ | forget _ _ | addTask _ | endTask _ => exact hkept rfl
  | metrics h => exact hkept h.followers
  | @follower s change hchange =>
    by_cases hs : s = r
    · subst hs
      refine ⟨change f, by simp [modifyFollower, hf], (hchange f hf).persists, Or.inl ?_⟩
      exact (hchange f hf).closed
    · exact ⟨f, hother change hs, .refl f, Or.inl rfl⟩
  | @withdraw s g hg =>
    by_cases hs : s = r
    · subst hs
      obtain rfl := Option.some.inj (hf.symm.trans hg)
      refine ⟨{ f with registry := (f.registry.withdraw (n.exposition f.exposition)).1 }, ?_,
        ⟨rfl, rfl, rfl, rfl, id, id, id⟩, Or.inl rfl⟩
      simp [setExposition, modifyFollower, hf]
    · exact ⟨f, hother _ hs, .refl f, Or.inl rfl⟩
  | @close due s g d e notices hg hclose hdue =>
    by_cases hs : s = r
    · subst hs
      obtain rfl := Option.some.inj (hf.symm.trans hg)
      obtain ⟨hopen, hclosed⟩ := Dynamic.closed_of_close hclose
      refine ⟨{ f with registry := d }, by simp [setExposition, modifyFollower, hf],
        ⟨rfl, rfl, (Dynamic.settled_close hclose).1, (Dynamic.withdrawn_of_close hclose).1,
          fun _ => hclosed, id, id⟩, Or.inr ⟨hopen, hclosed, hdue.imp And.left id⟩⟩
    · exact ⟨f, hother _ hs, .refl f, Or.inl rfl⟩

theorem Change.persists {C : Nat → Prop} {n n' : Node} (h : Change C n n') {r : Nat}
    {f : Follower} (hf : n.followers[r]? = some f) :
    ∃ f', n'.followers[r]? = some f' ∧ Persists f f' := by
  obtain ⟨f', hf', hpersists, _⟩ := h.follower_cases hf
  exact ⟨f', hf', hpersists⟩

theorem Changes.persists {C : Nat → Prop} {n n' : Node} (h : Changes C n n') {r : Nat}
    {f : Follower} (hf : n.followers[r]? = some f) :
    ∃ f', n'.followers[r]? = some f' ∧ Persists f f' := by
  induction h generalizing f with
  | refl _ => exact ⟨f, hf, .refl f⟩
  | next hc _ ih =>
    obtain ⟨g, hg, hfg⟩ := hc.persists hf
    obtain ⟨f', hf', hgf'⟩ := ih hg
    exact ⟨f', hf', hfg.trans hgf'⟩

theorem Founds.getElem?_followers {n n' : Node} {f g : Follower} (h : Founds n n' f) {r : Nat}
    (hg : n.followers[r]? = some g) : n'.followers[r]? = some g := by
  rw [h.followers, List.getElem?_append_left (List.getElem?_eq_some_iff.mp hg).1, hg]

theorem Becomes.persists {C : Nat → Prop} {n n' : Node} (h : Becomes C n n') {r : Nat}
    {f : Follower} (hf : n.followers[r]? = some f) :
    ∃ f', n'.followers[r]? = some f' ∧ Persists f f' := by
  obtain ⟨m, hm, hn'⟩ := h
  obtain ⟨f', hf', hpersists⟩ := hm.persists hf
  refine ⟨f', ?_, hpersists⟩
  rcases hn' with hsame | ⟨g, hg⟩
  · have hfollowers : n'.followers = m.followers := congrArg Inner.followers hsame
    rw [hfollowers, hf']
  · exact hg.getElem?_followers hf'

theorem persists_occur {n : Node} {r : Nat} {f : Follower} (hf : n.followers[r]? = some f)
    (e : Event) : ∃ f', (n.occur e).followers[r]? = some f' ∧ Persists f f' := by
  cases hdirect : e.isDirect with
  | false => exact (becomes_occur hdirect n).persists hf
  | true =>
    cases e with
    | store _ | closeOnRead _ => exact ⟨f, hf, .refl f⟩
    | register exposition c =>
      have hsame : (n.occur (.register exposition c)).followers = n.followers :=
        congrArg Core.followers (core_register exposition c n)
      exact ⟨f, hsame ▸ hf, .refl f⟩
    | _ => cases hdirect

end Node

end NamespaceTopology
