import NamespaceTopology.Proofs.Node.Events

set_option autoImplicit false

/-!
What each action of a node can come to. An action is taken apart here once, into the ways in which it can
go, each with what it finds. What an action keeps or changes is then shown way by way, and nothing else
depends on how the action is written down.
-/
namespace NamespaceTopology

theorem map_eq_ok {ε α β : Type} {x : Except ε α} {f : α → β} {b : β} :
    x.map f = .ok b ↔ ∃ a, x = .ok a ∧ f a = b := by
  cases x <;> simp [Except.map]

namespace Node

/-! ### What users do -/

inductive WatchStep (n : Node) : Source → Node → Prop where
  | refused {source : Source} {e : Error} (hw : n.watch source = .error e) : WatchStep n source n
  | dynamic {r : Nat} {f : Follower} {d : Dynamic} {id : Nat} (hf : n.followers[r]? = some f)
      (hw : f.registry.watch = .ok (d, id)) :
      WatchStep n (.dynamic r) (n.modifyFollower r fun f => { f with registry := d })
  | static {s : Nat} {x y : Static} {id : Nat} (hx : n.statics[s]? = some x)
      (hw : x.watch = .ok (y, id)) : WatchStep n (.static s) { n with statics := n.statics.set s y }
  | hub {h : Nat} {x y : Hub String} {id : Nat} (hx : n.hubs[h]? = some x)
      (hw : x.subscribe = .ok (y, id)) : WatchStep n (.hub h) { n with hubs := n.hubs.set h y }

theorem watch_step (source : Source) (n : Node) : n.WatchStep source (n.occur (.watch source)) := by
  simp only [occur]
  cases hw : n.watch source with
  | error e => exact .refused hw
  | ok p =>
    cases source with
    | dynamic r =>
      cases hf : n.followers[r]? with
      | none => simp [watch, hf] at hw
      | some f =>
        simp only [watch, hf] at hw
        obtain ⟨⟨d, id⟩, hd, rfl⟩ := map_eq_ok.mp hw
        exact .dynamic hf hd
    | static s =>
      cases hx : n.statics[s]? with
      | none => simp [watch, hx] at hw
      | some x =>
        simp only [watch, hx] at hw
        obtain ⟨⟨y, id⟩, hy, rfl⟩ := map_eq_ok.mp hw
        exact .static hx hy
    | hub h =>
      cases hx : n.hubs[h]? with
      | none => simp [watch, hx] at hw
      | some x =>
        simp only [watch, hx] at hw
        obtain ⟨⟨y, id⟩, hy, rfl⟩ := map_eq_ok.mp hw
        exact .hub hx hy

inductive CloseStep (n : Node) : Source → Node → Prop where
  | refused {source : Source} {e : Error} (hc : n.close source = .error e) : CloseStep n source n
  | dynamic {r : Nat} {m : Node} (hc : n.closeDynamic r = .ok m) : CloseStep n (.dynamic r) m
  | static {s : Nat} {x y : Static} (hx : n.statics[s]? = some x) (hc : x.close = .ok y) :
      CloseStep n (.static s) { n with statics := n.statics.set s y }
  | hub {h : Nat} {x y : Hub String} (hx : n.hubs[h]? = some x) (hc : x.close = .ok y) :
      CloseStep n (.hub h) { n with hubs := n.hubs.set h y }

theorem close_step (source : Source) (n : Node) : n.CloseStep source (n.occur (.close source)) := by
  simp only [occur]
  cases hc : n.close source with
  | error e => exact .refused hc
  | ok m =>
    cases source with
    | dynamic r => exact .dynamic hc
    | static s =>
      cases hx : n.statics[s]? with
      | none => simp [close, hx] at hc
      | some x =>
        simp only [close, hx] at hc
        obtain ⟨y, hy, rfl⟩ := map_eq_ok.mp hc
        exact .static hx hy
    | hub h =>
      cases hx : n.hubs[h]? with
      | none => simp [close, hx] at hc
      | some x =>
        simp only [close, hx] at hc
        obtain ⟨y, hy, rfl⟩ := map_eq_ok.mp hc
        exact .hub hx hy

/-- A collector that is registered is shown from then on, and one that is not changes nothing. -/
theorem register_cases (exposition : String) (c : Collector) (n : Node) :
    n.occur (.register exposition c) = n ∨
    ∃ e, (n.exposition exposition).register c = .ok e ∧
      n.occur (.register exposition c) = n.setExposition exposition e := by
  simp only [occur, register]
  cases c.fault? with
  | some cause => exact Or.inl rfl
  | none =>
    cases (n.exposition exposition).register c with
    | error cause => exact Or.inl rfl
    | ok e => exact Or.inr ⟨e, rfl, rfl⟩

theorem publish_cases (h : Nat) (s : String) (n : Node) : n.occur (.publish h s) = n ∨
    ∃ x y, n.hubs[h]? = some x ∧ x.update s = .ok y ∧
      n.occur (.publish h s) = { n with hubs := n.hubs.set h y } := by
  simp only [occur, publish]
  cases n.hubs[h]? with
  | none => exact Or.inl rfl
  | some x =>
    simp only
    cases hu : x.update s with
    | error e => exact Or.inl rfl
    | ok y => exact Or.inr ⟨x, y, rfl, hu, rfl⟩

/-! ### The remote side -/

/-- Starting to follow a key, with the remote side that comes of it. -/
inductive FollowStep (n : Node) (key : String) : Client → Node → Remote → Prop where
  | store : FollowStep n key .store { n with store := (n.store.watch key).1 }
      (.watch (n.store.watch key).2)
  | service {feed : Feed} (hw : n.feed.watch key = .ok feed) :
      FollowStep n key .service { n with feed } .feed

theorem follow_step {client : Client} {key : String} {n m : Node} {remote : Remote}
    (h : n.follow client key = .ok (m, remote)) : n.FollowStep key client m remote := by
  cases client with
  | store =>
    obtain ⟨rfl, rfl⟩ := Prod.mk.inj (Except.ok.inj h)
    exact .store
  | service =>
    cases hw : n.feed.watch key with
    | error e => simp [follow, hw, Except.map] at h
    | ok feed =>
      simp only [follow, hw, Except.map] at h
      obtain ⟨rfl, rfl⟩ := Prod.mk.inj (Except.ok.inj h)
      exact .service hw

inductive ReadStep (n : Node) : Remote → Node → Prop where
  | watch {w : Nat} : ReadStep n (.watch w) n
  | feed (hdue : n.closeOnRead = none) :
      ReadStep n .feed { n with feed := { n.feed with reads := n.feed.reads + 1 } }
  /-- A registry was due to be closed then. -/
  | closes {r : Nat} (hdue : n.closeOnRead = some r) : ReadStep n .feed
      ({ n with feed := { n.feed with reads := n.feed.reads + 1 }, closeOnRead := none }.ensureClosed r)

theorem read_step (remote : Remote) (n : Node) : n.ReadStep remote (n.readRemote remote).1 := by
  cases remote with
  | watch w => exact .watch
  | feed =>
    simp only [readRemote]
    split
    next r hdue => exact .closes hdue
    next hdue => exact .feed hdue

theorem contentOf_readRemote {remote : Remote} {w : Nat} (hw : remote = .watch w) (n : Node) :
    (n.readRemote remote).1.store.contentOf w = (n.readRemote remote).2 := by
  subst hw
  rfl

/-! ### Tasks -/

inductive UpdateStep (n : Node) (r : Nat) : Node → Prop where
  | gone (hf : n.followers[r]? = none) : UpdateStep n r (n.endTask (.updates r))
  | ends {f : Follower} (hf : n.followers[r]? = some f) (hclosed : f.registry.closed = true) :
      UpdateStep n r (n.endLoop r)
  | waits {f : Follower} (hf : n.followers[r]? = some f) (hopen : f.registry.closed = false)
      (hs : (n.takeSignal f.remote).2 = .waiting) : UpdateStep n r (n.takeSignal f.remote).1
  | ended {f : Follower} (hf : n.followers[r]? = some f) (hopen : f.registry.closed = false)
      (hs : (n.takeSignal f.remote).2 = .ended) :
      UpdateStep n r (((n.takeSignal f.remote).1.ensureClosed r).endLoop r)
  | wakes {f : Follower} (hf : n.followers[r]? = some f) (hopen : f.registry.closed = false)
      (hs : (n.takeSignal f.remote).2 = .changed) :
      UpdateStep n r (((n.takeSignal f.remote).1.readRemote f.remote).1.wake r
        ((n.takeSignal f.remote).1.readRemote f.remote).2)

section

variable {r : Nat} {n : Node} {f : Follower} (hf : n.followers[r]? = some f)

include hf

theorem stepUpdates_of_closed (hclosed : f.registry.closed = true) : n.stepUpdates r = n.endLoop r := by
  simp only [stepUpdates, hf, hclosed, if_true]

theorem stepUpdates_of_waiting (hopen : f.registry.closed = false)
    (hs : (n.takeSignal f.remote).2 = .waiting) : n.stepUpdates r = (n.takeSignal f.remote).1 := by
  rcases htake : n.takeSignal f.remote with ⟨m, signal⟩
  rw [htake] at hs
  obtain rfl : signal = .waiting := hs
  simp only [stepUpdates, hf, hopen, htake, Bool.false_eq_true, if_false]

theorem stepUpdates_of_ended (hopen : f.registry.closed = false)
    (hs : (n.takeSignal f.remote).2 = .ended) :
    n.stepUpdates r = ((n.takeSignal f.remote).1.ensureClosed r).endLoop r := by
  rcases htake : n.takeSignal f.remote with ⟨m, signal⟩
  rw [htake] at hs
  obtain rfl : signal = .ended := hs
  simp only [stepUpdates, hf, hopen, htake, Bool.false_eq_true, if_false]

theorem stepUpdates_of_changed (hopen : f.registry.closed = false)
    (hs : (n.takeSignal f.remote).2 = .changed) :
    n.stepUpdates r = ((n.takeSignal f.remote).1.readRemote f.remote).1.wake r
      ((n.takeSignal f.remote).1.readRemote f.remote).2 := by
  rcases htake : n.takeSignal f.remote with ⟨m, signal⟩
  rw [htake] at hs
  obtain rfl : signal = .changed := hs
  simp only [stepUpdates, hf, hopen, htake, Bool.false_eq_true, if_false]
  rfl

end

theorem update_step (r : Nat) (n : Node) : n.UpdateStep r (n.stepUpdates r) := by
  cases hf : n.followers[r]? with
  | none =>
    simp only [stepUpdates, hf]
    exact .gone hf
  | some f =>
    cases hc : f.registry.closed with
    | true =>
      rw [stepUpdates_of_closed hf hc]
      exact .ends hf hc
    | false =>
      cases hs : (n.takeSignal f.remote).2 with
      | waiting =>
        rw [stepUpdates_of_waiting hf hc hs]
        exact .waits hf hc hs
      | ended =>
        rw [stepUpdates_of_ended hf hc hs]
        exact .ended hf hc hs
      | changed =>
        rw [stepUpdates_of_changed hf hc hs]
        exact .wakes hf hc hs

inductive SampleStep (n : Node) (r : Nat) : Node → Prop where
  | gone (hf : n.followers[r]? = none) : SampleStep n r (n.endTask (.samples r))
  | ends {f : Follower} (hf : n.followers[r]? = some f) (hclosed : f.registry.closed = true) :
      SampleStep n r ((n.modifyFollower r fun f => { f with samplerDone := true }).endTask (.samples r))
  | samples {f : Follower} (hf : n.followers[r]? = some f) (hopen : f.registry.closed = false)
      (hdue : f.nextSample.getD n.nanos ≤ n.nanos) :
      SampleStep n r (n.modifyFollower r fun g => { g with
        registry := g.registry.sample
        nextSample := some (nextDue (f.nextSample.getD n.nanos) n.nanos g.registry.reportInterval) })
  | waits {f : Follower} (hf : n.followers[r]? = some f) (hopen : f.registry.closed = false)
      (hdue : n.nanos < f.nextSample.getD n.nanos) : SampleStep n r n

theorem sample_step (r : Nat) (n : Node) : n.SampleStep r (n.stepSamples r) := by
  unfold stepSamples
  cases hf : n.followers[r]? with
  | none => exact .gone hf
  | some f =>
    cases hc : f.registry.closed with
    | true =>
      simp only [hc, if_true]
      exact .ends hf hc
    | false =>
      simp only [hc, Bool.false_eq_true, if_false]
      split
      next hdue => exact .samples hf hc hdue
      next hdue => exact .waits hf hc (Nat.lt_of_not_le hdue)

inductive ConsumeStep (n : Node) (c : Nat) : Node → Prop where
  | gone (hx : (n.consumers[c]?).bind Consumer.subscription = none) :
      ConsumeStep n c (n.endTask (.consumer c))
  | waits {x : Consumer} {id : Nat} (hx : n.consumers[c]? = some x) (hid : x.subscription = some id)
      (hd : n.peek x.source id = .waiting) : ConsumeStep n c (n.next x.source id).1
  | takes {x : Consumer} {id : Nat} {f : Consumer → Consumer} (hx : n.consumers[c]? = some x)
      (hid : x.subscription = some id) (hd : n.peek x.source id ≠ .waiting) :
      ConsumeStep n c ((n.next x.source id).1.modifyConsumer c f)
  | stops {x : Consumer} {id : Nat} {f : Consumer → Consumer} (hx : n.consumers[c]? = some x)
      (hid : x.subscription = some id) (hd : n.peek x.source id ≠ .waiting) :
      ConsumeStep n c (((n.next x.source id).1.modifyConsumer c f).endTask (.consumer c))

theorem consume_step (c : Nat) (n : Node) : n.ConsumeStep c (n.stepConsumer c) := by
  unfold stepConsumer
  cases hx : n.consumers[c]? with
  | none => exact .gone (by rw [hx]; rfl)
  | some x =>
    cases hid : x.subscription with
    | none =>
      simp only [hid]
      exact .gone (by rw [hx]; exact hid)
    | some id =>
      simp only [hid, next]
      cases hd : n.peek x.source id with
      | waiting => exact .waits hx hid hd
      | ended | value _ =>
        simp only
        split
        · exact .stops hx hid (by simp [hd])
        · exact .takes hx hid (by simp [hd])

/-! ### Calls that initialize -/

/-- Building a registry from the first value that there is, if any. -/
inductive BuildStep (n : Node) (a i : Nat) (o : DynamicOptions) (remote : Remote)
    (first : Option (Value × Topology)) : Node → Prop where
  | fails {m : Node} {cause : MetricsError}
      (hmade : n.createInstruments o.exposition o.scope = (m, .error cause)) :
      BuildStep n a i o remote first ((m.tell [.error
        ("dynamic namespace registry could not register metrics: " ++ cause.message)]).fail
          a i remote (.metrics cause))
  | founds {m : Node} {instruments : Instruments} {f : Follower}
      (hmade : n.createInstruments o.exposition o.scope = (m, .ok instruments))
      (hf : f = ⟨.start o instruments first, remote, o.exposition, false, false, none⟩) :
      BuildStep n a i o remote first (((({ m with followers := m.followers ++ [f] }.addTask
        (.updates m.followers.length)).addTask (.samples m.followers.length)).modifyInitializer i
          fun x => { x with registry := some m.followers.length }).endAttempt a i
            (.finished (.ok m.followers.length)))

theorem build_step (a i : Nat) (o : DynamicOptions) (remote : Remote)
    (first : Option (Value × Topology)) (n : Node) :
    n.BuildStep a i o remote first (n.build a i o remote first) := by
  unfold build
  rcases hmade : n.createInstruments o.exposition o.scope with ⟨m, made⟩
  cases made with
  | error cause => exact .fails hmade
  | ok instruments => exact .founds hmade rfl

inductive ConcludeStep (n : Node) (a i : Nat) (o : DynamicOptions) (remote : Remote) : Node → Prop where
  | builds {v : Value} {t : Topology} (hcontent : (n.readRemote remote).2 = some v)
      (ht : v.topology = .ok t) :
      ConcludeStep n a i o remote ((n.readRemote remote).1.build a i o remote (some (v, t)))
  | invalid {v : Value} {cause : NamespaceError} (hcontent : (n.readRemote remote).2 = some v)
      (ht : v.topology = .error cause) :
      ConcludeStep n a i o remote (((n.readRemote remote).1.tell
        [.error ("dynamic namespace registry received invalid initial value: "
          ++ cause.message)]).fail a i remote (.namespaces cause))
  | empty (hcontent : (n.readRemote remote).2 = none) (hzero : o.initTimeout.nanos = 0) :
      ConcludeStep n a i o remote ((n.readRemote remote).1.build a i o remote none)
  | absent (hcontent : (n.readRemote remote).2 = none) (hwaited : o.initTimeout.nanos ≠ 0) :
      ConcludeStep n a i o remote (((n.readRemote remote).1.tell
        [.error "dynamic namespace registry received absent initial value"]).fail
          a i remote (.namespaces .unreadable))

theorem conclude_step (a i : Nat) (o : DynamicOptions) (remote : Remote) (n : Node) :
    n.ConcludeStep a i o remote (n.conclude a i o remote) := by
  unfold conclude
  split
  next m v hm =>
    obtain rfl : (n.readRemote remote).1 = m := congrArg Prod.fst hm
    have hcontent : (n.readRemote remote).2 = some v := congrArg Prod.snd hm
    split
    next t ht => exact .builds hcontent ht
    next cause ht => exact .invalid hcontent ht
  next m hm =>
    obtain rfl : (n.readRemote remote).1 = m := congrArg Prod.fst hm
    have hcontent : (n.readRemote remote).2 = none := congrArg Prod.snd hm
    split
    next hzero => exact .empty hcontent hzero
    next hwaited => exact .absent hcontent hwaited

inductive AwaitStep (n : Node) (a i : Nat) (o : DynamicOptions) (remote : Remote) (deadline : Nat) :
    Node → Prop where
  | changed (hs : (n.takeSignal remote).2 = .changed) :
      AwaitStep n a i o remote deadline ((n.takeSignal remote).1.conclude a i o remote)
  | ended (hs : (n.takeSignal remote).2 = .ended) :
      AwaitStep n a i o remote deadline (((n.takeSignal remote).1.tell
        [.warning "namespace registry watch ended during the initial wait"]).conclude a i o remote)
  | late (hs : (n.takeSignal remote).2 = .waiting) (hlate : deadline ≤ n.nanos) :
      AwaitStep n a i o remote deadline (((n.takeSignal remote).1.tell
        [.error ("dynamic namespace registry initialization failed after waiting up to "
          ++ o.initTimeout.text ++ ": " ++ (Error.initTimeout o.initTimeout).message)]).fail
            a i remote (.initTimeout o.initTimeout))
  | waits (hs : (n.takeSignal remote).2 = .waiting) (hearly : n.nanos < deadline) :
      AwaitStep n a i o remote deadline ((n.takeSignal remote).1.modifyAttempt a fun x =>
        { x with stage := .waiting remote deadline })

theorem nanos_takeSignal (remote : Remote) (n : Node) : (n.takeSignal remote).1.nanos = n.nanos := by
  cases remote <;> rfl

theorem await_step (a i : Nat) (o : DynamicOptions) (remote : Remote) (deadline : Nat) (n : Node) :
    n.AwaitStep a i o remote deadline (n.await a i o remote deadline) := by
  have hnanos := nanos_takeSignal remote n
  unfold await
  split
  next m hm =>
    obtain rfl : (n.takeSignal remote).1 = m := congrArg Prod.fst hm
    exact .changed (congrArg Prod.snd hm)
  next m hm =>
    obtain rfl : (n.takeSignal remote).1 = m := congrArg Prod.fst hm
    exact .ended (congrArg Prod.snd hm)
  next m hm =>
    obtain rfl : (n.takeSignal remote).1 = m := congrArg Prod.fst hm
    rw [hnanos]
    split
    next hlate => exact .late (congrArg Prod.snd hm) hlate
    next hearly => exact .waits (congrArg Prod.snd hm) (Nat.lt_of_not_le hearly)

theorem exists_client {o : DynamicOptions} (h : o.validate = .ok ()) : ∃ client, o.client = some client :=
  Option.ne_none_iff_exists'.mp ((DynamicOptions.validate_eq_ok_iff o).mp h).1

inductive TurnStep (n : Node) (a i : Nat) (x : Initializer) : Node → Prop where
  | stands {r : Nat} (hr : x.registry = some r) : TurnStep n a i x (n.endAttempt a i (.finished (.ok r)))
  | invalid {e : ConfigError} (hr : x.registry = none) (hvalid : x.options.validate = .error e) :
      TurnStep n a i x (n.endAttempt a i (.finished (.error (.config e))))
  | unfollowed {client : Client} {e : StoreError} (hr : x.registry = none)
      (hvalid : x.options.validate = .ok ()) (hclient : x.options.client = some client)
      (hf : n.follow client x.options.key = .error e) :
      TurnStep n a i x (n.endAttempt a i (.finished (.error (.store e))))
  | concludes {client : Client} {m : Node} {remote : Remote} (hr : x.registry = none)
      (hvalid : x.options.validate = .ok ()) (hclient : x.options.client = some client)
      (hf : n.follow client x.options.key = .ok (m, remote)) (hzero : x.options.initTimeout.nanos = 0) :
      TurnStep n a i x (m.conclude a i x.options remote)
  | awaits {client : Client} {m : Node} {remote : Remote} (hr : x.registry = none)
      (hvalid : x.options.validate = .ok ()) (hclient : x.options.client = some client)
      (hf : n.follow client x.options.key = .ok (m, remote)) (hwaits : x.options.initTimeout.nanos ≠ 0) :
      TurnStep n a i x (m.await a i x.options remote (dueAfter m.nanos x.options.initTimeout))

theorem turn_step (a i : Nat) (x : Initializer) (n : Node) : n.TurnStep a i x (n.takeTurn a i x) := by
  unfold takeTurn
  split
  next r hr => exact .stands hr
  next hr =>
    split
    next e hvalid => exact .invalid hr hvalid
    next hvalid hnone =>
      obtain ⟨client, hclient⟩ := exists_client hvalid
      rw [hclient] at hnone
      cases hnone
    next client hvalid hclient =>
      cases hf : n.follow client x.options.key with
      | error e => exact .unfollowed hr hvalid hclient hf
      | ok p =>
        simp only
        split
        next hzero => exact .concludes hr hvalid hclient hf hzero
        next hwaits => exact .awaits hr hvalid hclient hf hwaits

/-- A call that has its turn at an initializer without having waited. -/
inductive Reaches (a : Nat) (n : Node) (x : Attempt) (y : Initializer) : Node → Prop where
  | fresh (hstage : x.stage = .fresh) (hempty : y.queue = []) : Reaches a n x y
      (n.modifyInitializer x.initializer fun y => { y with queue := y.queue ++ [a] })
  | queued (hstage : x.stage = .queued) (hfirst : y.queue.head? = some a) : Reaches a n x y n

inductive Turned (a : Nat) (n : Node) : Node → Prop where
  /-- It is not its turn. -/
  | stays : Turned a n n
  /-- It is over, or there is no such call. -/
  | ends : Turned a n (n.endTask (.attempt a))
  | abandons {x : Attempt} (hx : n.attempts[a]? = some x) (hcancelled : x.cancelled = true) :
      Turned a n (n.abandon a x.initializer x.stage)
  | queues {x : Attempt} {y : Initializer} (hx : n.attempts[a]? = some x) (hstage : x.stage = .fresh)
      (hy : n.initializers[x.initializer]? = some y) (hqueue : y.queue ≠ []) :
      Turned a n ((n.modifyInitializer x.initializer fun y => { y with queue := y.queue ++ [a] }
        ).modifyAttempt a fun x => { x with stage := .queued })
  | takes {x : Attempt} {y : Initializer} {m : Node} (hx : n.attempts[a]? = some x)
      (hy : n.initializers[x.initializer]? = some y) (hm : n.Reaches a x y m) :
      Turned a n (m.takeTurn a x.initializer y)
  | resumes {x : Attempt} {y : Initializer} {remote : Remote} {deadline : Nat}
      (hx : n.attempts[a]? = some x) (hy : n.initializers[x.initializer]? = some y)
      (hstage : x.stage = .waiting remote deadline) :
      Turned a n (n.await a x.initializer y.options remote deadline)

theorem turned_stepAttempt (a : Nat) (n : Node) : n.Turned a (n.stepAttempt a) := by
  unfold stepAttempt
  split
  · exact .ends
  next i stage hx => exact .abandons (x := ⟨i, stage, true⟩) hx rfl
  next i stage hx =>
    cases hy : n.initializers[i]? with
    | none => exact .ends
    | some y =>
      cases stage with
      | fresh =>
        cases hqueue : y.queue with
        | nil =>
          simp only [hqueue, List.isEmpty_nil, if_true]
          exact .takes (x := ⟨i, .fresh, false⟩) hx hy (.fresh rfl hqueue)
        | cons b bs =>
          simp only [hqueue, List.isEmpty_cons, Bool.false_eq_true, if_false]
          exact .queues (x := ⟨i, .fresh, false⟩) hx rfl hy (by simp [hqueue])
      | queued =>
        simp only [isFirst, hy, Option.any_some, decide_eq_true_eq]
        split
        next hfirst => exact .takes (x := ⟨i, .queued, false⟩) hx hy (.queued rfl hfirst)
        next => exact .stays
      | waiting remote deadline => exact .resumes (x := ⟨i, .waiting remote deadline, false⟩) hx hy rfl
      | finished _ | abandoned => exact .ends

end Node

end NamespaceTopology
