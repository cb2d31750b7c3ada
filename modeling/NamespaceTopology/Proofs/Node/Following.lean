import NamespaceTopology.Proofs.Node.Attachment

set_option autoImplicit false

/-!
Registries keep up with the keys that they follow: when the update loop of a registry comes to rest, the
key holds nothing that the registry would apply.
-/
namespace NamespaceTopology.Node

/-- Nobody else holds a watch. -/
def Owns (n : Node) (h : Holder) (w : Nat) : Prop := ∀ h', n.Holds h' w → h' = h

/-- The registry of which nothing is known once a signal has been taken. -/
def Holder.loose? : Holder → Option Nat
  | .registry r => some r
  | .call _ => none

theorem Attached.but {n : Node} (hn : n.Attached) (loose : Option Nat) : n.AttachedBut loose where
  bounded := hn.bounded
  registry r f w hf hremote := by
    refine (hn.registry r f w hf hremote).mono fun content hcontent => ?_
    rcases hcontent with hnone | hsettled
    · cases hnone
    · exact Or.inr hsettled
  call := hn.call
  alone := hn.alone

/-! ### Taking a signal -/

theorem core_takeSignal {remote : Remote} {n : Node} (h : (n.takeSignal remote).2 ≠ .changed) :
    (n.takeSignal remote).1.core = n.core := by
  cases remote with
  | feed => rfl
  | watch w =>
    have hlook : (n.store.look w).1 = n.store := by
      change (n.store.look w).2 ≠ .changed at h
      unfold Store.look at h ⊢
      split
      · rfl
      · split
        next hclosed hqueue =>
          rw [if_neg hclosed, if_pos hqueue] at h
          unfold Store.serve at h ⊢
          split
          next hpeek =>
            simp only [hpeek] at h
            exact absurd rfl h
          next => rfl
        next => rfl
    change Core.mk (n.store.look w).1 n.followers n.attempts n.initializers = n.core
    rw [hlook]
    rfl

/-- The holder of a watch takes a signal of it. -/
theorem Attached.takeSignal {n : Node} (hn : n.Attached) {h : Holder} {remote : Remote}
    (howns : ∀ w, remote = .watch w → n.Owns h w) :
    (n.takeSignal remote).1.AttachedBut h.loose? := by
  cases remote with
  | feed => exact (hn.but h.loose?).quiet (.of_core rfl)
  | watch w =>
    have howns := howns w rfl
    refine ⟨hn.bounded.congr (Store.cells_look w n.store), ?_, ?_, hn.alone⟩
    · intro r f i hf hremote
      have htracks := (hn.but h.loose?).registry r f i hf hremote
      by_cases hi : w = i
      · subst hi
        have hholder : Holder.registry r = h := howns _ ⟨f, hf, hremote⟩
        subst hholder
        exact htracks.look (Or.inr fun _ => Or.inl rfl)
      · exact htracks.look (Or.inl hi)
    · intro a x i hx hremote
      obtain ⟨y, hy, htracks⟩ := hn.call a x i hx hremote
      exact ⟨y, hy, htracks.look (Or.inr fun _ => trivial)⟩

/-! ### The update loop -/

theorem holds_modifyFollower {r : Nat} {change : Follower → Follower} {n : Node} {h : Holder} {w : Nat}
    (hw : (n.modifyFollower r change).Holds h w) (hremote : ∀ x, (change x).remote = x.remote) :
    n.Holds h w := by
  cases h with
  | call a => exact hw
  | registry s =>
    obtain ⟨f', hf', hwatch⟩ := hw
    obtain ⟨f, hf, rfl | rfl⟩ := getElem?_modify_cases hf'
    · exact ⟨f', hf, hwatch⟩
    · exact ⟨f, hf, (hremote f).symm.trans hwatch⟩

/-- The content that a registry takes in has nothing more to bring to it. -/
theorem AttachedBut.wake {r : Nat} {n : Node} (hn : n.AttachedBut (some r)) {content : Option Value}
    (hread : ∀ f w, n.followers[r]? = some f → f.remote = .watch w →
      n.store.contentOf w = content) : (n.wake r content).Attached := by
  have hother {s : Nat} (hs : r ≠ s) {f : Follower} {w : Nat} (hf : n.followers[s]? = some f)
      (hremote : f.remote = .watch w) : n.store.Tracks w f.registry.key fun content =>
        none = some s ∨ f.registry.Settled content := by
    refine (hn.registry s f w hf hremote).mono fun c hc => ?_
    rcases hc with hsame | hsettled
    · exact absurd (Option.some.inj hsame) hs
    · exact Or.inr hsettled
  unfold Node.wake
  cases hf : n.followers[r]? with
  | none =>
    refine ⟨hn.bounded, ?_, hn.call, hn.alone⟩
    intro s f w hs hremote
    refine hother ?_ hs hremote
    rintro rfl
    rw [hf] at hs
    cases hs
  | some f =>
    refine ⟨hn.bounded, ?_, hn.call, ?_⟩
    · intro s f' w hf' hremote
      by_cases hs : r = s
      · subst hs
        have htaken : { f with registry := (f.registry.receive content).1 } = f' := by
          simpa [modifyFollower, tell, hf] using hf'
        subst htaken
        rw [Dynamic.key_receive]
        refine (hn.registry r f w hf hremote).of_content (Or.inr ?_)
        rw [hread f w hf hremote]
        exact Dynamic.settled_receive f.registry content
      · change (n.followers.modify r _)[s]? = some f' at hf'
        rw [List.getElem?_modify_ne _ _ hs] at hf'
        exact hother hs hf' hremote
    · have hold {h : Holder} {w : Nat} (hw : Holds (n.modifyFollower r fun g =>
          { g with registry := (f.registry.receive content).1 }) h w) : n.Holds h w :=
        holds_modifyFollower hw fun _ => rfl
      intro h h' w hw hw'
      exact hn.alone h h' w (hold hw) (hold hw')

theorem Attached.stepUpdates {n : Node} (hn : n.Attached) (r : Nat) : (n.stepUpdates r).Attached := by
  have hstep := update_step r n
  generalize n.stepUpdates r = m at hstep ⊢
  cases hstep with
  | gone _ => exact hn.quiet (.of_core rfl)
  | ends _ _ => exact hn.quiet (quiet_endLoop r n)
  | waits _ _ hs => exact hn.quiet (.of_core (core_takeSignal (by simp [hs])))
  | @ended f _ _ hs =>
    have htaken : (n.takeSignal f.remote).1.Attached :=
      hn.quiet (.of_core (core_takeSignal (by simp [hs])))
    exact (htaken.quiet (quiet_ensureClosed r _)).quiet (quiet_endLoop r _)
  | @wakes f hf _ _ =>
    have howns (w : Nat) (hremote : f.remote = .watch w) : n.Owns (.registry r) w :=
      fun h' hw' => hn.alone h' (.registry r) w hw' ⟨f, hf, hremote⟩
    have hquiet := quiet_readRemote f.remote (n.takeSignal f.remote).1
    refine ((hn.takeSignal howns).quiet hquiet).wake fun f' w hf' hremote => ?_
    obtain ⟨g, hg, hsame, _⟩ := hquiet.registry r f' hf'
    rw [followers_takeSignal] at hg
    obtain rfl := Option.some.inj (hf.symm.trans hg)
    exact contentOf_readRemote (hsame.symm.trans hremote) _

/-! ### Calls -/

structure Claim (n : Node) (a : Nat) (o : DynamicOptions) (remote : Remote) : Prop where
  tracks : ∀ w, remote = .watch w → n.store.Tracks w o.key fun _ => True
  owns : ∀ w, remote = .watch w → n.Owns (.call a) w

def HasOptions (n : Node) (a : Nat) (o : DynamicOptions) : Prop :=
  ∃ (x : Attempt) (i : Initializer), n.attempts[a]? = some x ∧
    n.initializers[x.initializer]? = some i ∧ i.options = o

theorem Claim.quiet {n n' : Node} {a : Nat} {o : DynamicOptions} {remote : Remote}
    (hc : n.Claim a o remote) (hq : Quiet n n') : n'.Claim a o remote where
  tracks w hw := hq.tracks w _ _ (hc.tracks w hw)
  owns w hw h' hw' := hc.owns w hw h' (hq.holds hw')

theorem Claim.takeSignal {n : Node} {a : Nat} {o : DynamicOptions} {remote : Remote}
    (hc : n.Claim a o remote) : (n.takeSignal remote).1.Claim a o remote := by
  cases remote with
  | feed => exact hc.quiet (.of_core rfl)
  | watch w =>
    refine ⟨?_, hc.owns⟩
    intro i hi
    exact (hc.tracks i hi).look (Or.inr fun _ => trivial)

/-- One more holder of a watch that nobody else holds. -/
theorem alone_of_new {n n' : Node} {new : Holder} {remote : Remote}
    (halone : ∀ h h' w, n.Holds h w → n.Holds h' w → h = h')
    (howns : ∀ w, remote = .watch w → n.Owns new w)
    (hnew : ∀ h w, n'.Holds h w → n.Holds h w ∨ (h = new ∧ remote = .watch w)) :
    ∀ h h' w, n'.Holds h w → n'.Holds h' w → h = h' := by
  intro h h' w hw hw'
  rcases hnew h w hw with hold | ⟨rfl, hremote⟩
  · rcases hnew h' w hw' with hold' | ⟨rfl, hremote'⟩
    · exact halone h h' w hold hold'
    · exact howns w hremote' h hold
  · rcases hnew h' w hw' with hold' | ⟨rfl, _⟩
    · exact (howns w hremote h' hold').symm
    · rfl

/-- A new registry takes over a watch that nobody holds any more. -/
theorem Attached.append {n : Node} (hn : n.Attached) {f : Follower}
    (htracks : ∀ w, f.remote = .watch w → n.store.Tracks w f.registry.key f.registry.Settled)
    (hfree : ∀ w, f.remote = .watch w → ∀ h, ¬ n.Holds h w) :
    Attached { n with followers := n.followers ++ [f] } := by
  have hcases {r : Nat} {g : Follower} (hg : (n.followers ++ [f])[r]? = some g) :
      n.followers[r]? = some g ∨ (r = n.followers.length ∧ g = f) := by
    rw [List.getElem?_append] at hg
    split at hg
    · exact Or.inl hg
    next hge =>
      obtain ⟨hlt, heq⟩ := List.getElem?_eq_some_iff.mp hg
      simp only [List.length_singleton] at hlt
      exact Or.inr ⟨by omega, by simpa using heq.symm⟩
  refine ⟨hn.bounded, ?_, hn.call, ?_⟩
  · intro r g w hg hremote
    rcases hcases hg with hold | ⟨_, rfl⟩
    · exact hn.registry r g w hold hremote
    · exact (htracks w hremote).mono fun _ h => Or.inr h
  · have howns (w : Nat) (hremote : f.remote = .watch w) : n.Owns (.registry n.followers.length) w :=
      fun h hw => absurd hw (hfree w hremote h)
    refine alone_of_new hn.alone howns ?_
    intro h w hw
    cases h with
    | call a => exact Or.inl hw
    | registry r =>
      obtain ⟨g, hg, hremote⟩ := hw
      rcases hcases hg with hold | ⟨rfl, rfl⟩
      · exact Or.inl ⟨g, hold, hremote⟩
      · exact Or.inr ⟨rfl, hremote⟩

theorem Attached.build {n : Node} (hn : n.Attached) {a i : Nat} {o : DynamicOptions} {remote : Remote}
    (hc : n.Claim a o remote) {first : Option (Value × Topology)}
    (hfirst : ∀ w, remote = .watch w → n.store.contentOf w = first.map Prod.fst) :
    (n.build a i o remote first).Attached := by
  have hcore := core_createInstruments o.exposition o.scope n
  have hstep := build_step a i o remote first n
  generalize n.build a i o remote first = built at hstep ⊢
  cases hstep with
  | @fails m cause hmade =>
    rw [hmade] at hcore
    have hm : Quiet n m := .of_core hcore
    exact hn.quiet (hm.trans ((quiet_tell _ m).trans (quiet_fail a i remote _ _)))
  | @founds m instruments f hmade hf =>
    subst hf
    rw [hmade] at hcore
    have hstore : m.store = n.store := congrArg Core.store hcore
    have hm : Quiet n m := .of_core hcore
    let f : Follower := ⟨.start o instruments first, remote, o.exposition, false, false, none⟩
    let stage : Stage := .finished (.ok m.followers.length)
    -- The call ends first, so that nobody holds the watch when the registry takes it over.
    let built := m.modifyInitializer i fun x => { x with registry := some m.followers.length }
    let k := built.endAttempt a i stage
    have hbuilt : Quiet m built := quiet_modifyInitializer i m fun _ => rfl
    have hended : Quiet n k := (hm.trans hbuilt).trans (quiet_endAttempt a i rfl _)
    have happend : Attached { k with followers := k.followers ++ [f] } := by
      refine (hn.quiet hended).append ?_ ?_
      · intro w hw
        refine (hended.tracks w _ _ (hc.tracks w hw)).of_content ?_
        have hcontent : k.store.contentOf w = first.map Prod.fst := by
          change m.store.contentOf w = _
          rw [hstore]
          exact hfirst w hw
        rw [hcontent]
        exact Dynamic.settled_start o instruments first
      · intro w hw h hholds
        obtain rfl := hc.owns w hw h (hended.holds hholds)
        obtain ⟨x, hx, hremote⟩ := hholds
        change (m.attempts.modify a _)[a]? = some x at hx
        rw [List.getElem?_modify_eq] at hx
        obtain ⟨y, _, rfl⟩ := Option.map_eq_some_iff.mp hx
        cases hremote
    exact happend.quiet (.of_core rfl)

theorem Attached.conclude {n : Node} (hn : n.Attached) {a i : Nat} {o : DynamicOptions}
    {remote : Remote} (hc : n.Claim a o remote) : (n.conclude a i o remote).Attached := by
  have hquiet := quiet_readRemote remote n
  have hread : (n.readRemote remote).1.Attached := hn.quiet hquiet
  have hcontent (w : Nat) (hw : remote = .watch w) := contentOf_readRemote hw n
  have hstep := conclude_step a i o remote n
  generalize n.conclude a i o remote = m at hstep ⊢
  cases hstep with
  | builds hv _ | empty hv _ =>
    exact hread.build (hc.quiet hquiet) fun w hw => (hcontent w hw).trans hv
  | invalid _ _ | absent _ _ => exact hread.quiet ((quiet_tell _ _).trans (quiet_fail a i remote _ _))

/-- The call goes on waiting, as the one who holds the watch. -/
theorem Attached.wait {n : Node} (hn : n.Attached) {a : Nat} {o : DynamicOptions} {remote : Remote}
    (hc : n.Claim a o remote) (ho : n.HasOptions a o) (deadline : Nat) :
    (n.modifyAttempt a fun x => { x with stage := .waiting remote deadline }).Attached := by
  have hcases {b : Nat} {y : Attempt} (hy : (n.attempts.modify a fun x =>
      { x with stage := .waiting remote deadline })[b]? = some y) : n.attempts[b]? = some y ∨
        (b = a ∧ ∃ x, n.attempts[a]? = some x ∧ y = { x with stage := .waiting remote deadline }) := by
    by_cases hb : a = b
    · subst hb
      rw [List.getElem?_modify_eq] at hy
      obtain ⟨x, hx, rfl⟩ := Option.map_eq_some_iff.mp hy
      exact Or.inr ⟨rfl, x, hx, rfl⟩
    · rw [List.getElem?_modify_ne _ _ hb] at hy
      exact Or.inl hy
  refine ⟨hn.bounded, hn.registry, ?_, ?_⟩
  · intro b y w hy hremote
    rcases hcases hy with hold | ⟨rfl, x, hx, rfl⟩
    · exact hn.call b y w hold hremote
    · obtain ⟨x', i, hx', hi, rfl⟩ := ho
      obtain rfl := Option.some.inj (hx.symm.trans hx')
      exact ⟨i, hi, hc.tracks w (Option.some.inj hremote)⟩
  · refine alone_of_new hn.alone hc.owns ?_
    intro h w hw
    cases h with
    | registry r => exact Or.inl hw
    | call b =>
      obtain ⟨y, hy, hremote⟩ := hw
      rcases hcases hy with hsame | ⟨rfl, x, _, rfl⟩
      · exact Or.inl ⟨y, hsame, hremote⟩
      · exact Or.inr ⟨rfl, Option.some.inj hremote⟩

theorem Attached.await {n : Node} (hn : n.Attached) {a i : Nat} {o : DynamicOptions} {remote : Remote}
    (hc : n.Claim a o remote) (ho : n.HasOptions a o) (deadline : Nat) :
    (n.await a i o remote deadline).Attached := by
  have htaken := hn.takeSignal hc.owns
  have hclaim := hc.takeSignal
  have htaken : (n.takeSignal remote).1.Attached := htaken
  have hoptions : (n.takeSignal remote).1.HasOptions a o := by
    cases remote <;> exact ho
  have hstep := await_step a i o remote deadline n
  generalize n.await a i o remote deadline = m at hstep ⊢
  cases hstep with
  | changed _ => exact htaken.conclude hclaim
  | ended _ => exact Attached.conclude (htaken.quiet (quiet_tell _ _)) (hclaim.quiet (quiet_tell _ _))
  | late _ _ => exact htaken.quiet ((quiet_tell _ _).trans (quiet_fail a i remote _ _))
  | waits _ _ => exact htaken.wait hclaim hoptions deadline

/-- A call that starts to follow a key has a watch of its own. -/
theorem Attached.follow {n m : Node} (hn : n.Attached) {client : Client} {o : DynamicOptions}
    {remote : Remote} (hf : n.follow client o.key = .ok (m, remote)) (a : Nat) :
    Quiet n m ∧ m.Claim a o remote ∧ (n.HasOptions a o → m.HasOptions a o) := by
  cases follow_step hf with
  | store =>
    have hquiet : Quiet n { n with store := (n.store.watch o.key).1 } :=
      .of_store (fun h => h.watch o.key) fun _ _ _ h => h.watch o.key
    refine ⟨hquiet, ⟨?_, ?_⟩, id⟩
    · intro w hw
      obtain rfl := Remote.watch.inj hw
      exact Store.tracks_watch hn.bounded o.key
    · intro w hw h hholds
      have hlt := hn.lt_of_holds (hquiet.holds hholds)
      rw [← Remote.watch.inj hw] at hlt
      change (n.store.watch o.key).2 < n.store.watches.length at hlt
      rw [Store.watch_snd] at hlt
      exact absurd hlt (Nat.lt_irrefl _)
  | service _ => exact ⟨.of_core rfl, ⟨fun w hw => (by cases hw), fun w hw => (by cases hw)⟩, id⟩

theorem Attached.takeTurn {n : Node} (hn : n.Attached) {a i : Nat} {x : Initializer}
    (ho : n.HasOptions a x.options) : (n.takeTurn a i x).Attached := by
  have hstep := turn_step a i x n
  generalize n.takeTurn a i x = m at hstep ⊢
  cases hstep with
  | stands _ | invalid _ _ | unfollowed _ _ _ _ => exact hn.quiet (quiet_endAttempt a i rfl n)
  | concludes _ _ _ hf _ =>
    obtain ⟨hquiet, hclaim, _⟩ := hn.follow hf a
    exact (hn.quiet hquiet).conclude hclaim
  | awaits _ _ _ hf _ =>
    obtain ⟨hquiet, hclaim, hoptions⟩ := hn.follow hf a
    exact (hn.quiet hquiet).await hclaim (hoptions ho) _

theorem Attached.stepAttempt {n : Node} (hn : n.Attached) (a : Nat) : (n.stepAttempt a).Attached := by
  have hturned := turned_stepAttempt a n
  generalize n.stepAttempt a = m at hturned ⊢
  cases hturned with
  | stays => exact hn
  | ends => exact hn.quiet (.of_core rfl)
  | @abandons x _ _ => exact hn.quiet (quiet_abandon a x.initializer x.stage n)
  | @queues x y _ _ _ _ =>
    have hqueue : Quiet n (n.modifyInitializer x.initializer fun y => { y with queue := y.queue ++ [a] }) :=
      quiet_modifyInitializer x.initializer n fun _ => rfl
    exact hn.quiet (hqueue.trans (quiet_modifyAttempt a _ (fun _ => rfl) fun _ => Or.inl rfl))
  | @takes x y m hx hy hm =>
    cases hm with
    | queued _ _ => exact hn.takeTurn ⟨x, y, hx, hy, rfl⟩
    | fresh _ _ =>
      have hqueue := quiet_modifyInitializer (f := fun y : Initializer =>
        { y with queue := y.queue ++ [a] }) x.initializer n fun _ => rfl
      refine (hn.quiet hqueue).takeTurn ⟨x, { y with queue := y.queue ++ [a] }, hx, ?_, rfl⟩
      simp [modifyInitializer, hy]
  | @resumes x y remote deadline hx hy hstage =>
    have hremote {w : Nat} (hw : remote = .watch w) : x.stage.remote? = some (.watch w) := by
      rw [hstage, hw]
      rfl
    refine hn.await ⟨fun w hw => ?_, fun w hw h hholds => ?_⟩ ⟨x, y, hx, hy, rfl⟩ deadline
    · obtain ⟨y', hy', htracks⟩ := hn.call a x w hx (hremote hw)
      obtain rfl := Option.some.inj (hy.symm.trans hy')
      exact htracks
    · exact hn.alone h (.call a) w hholds ⟨x, hx, hremote hw⟩

/-! ### Runs -/

/-- What can happen to a node of which each registry has its watch for itself: the update loop is driven
by its signals only, and nobody else takes them. -/
def Allows (n : Node) : Event → Prop
  | .wake _ _ => False
  | .store e => ∀ w, e.taken? = some w → ∀ h, ¬ n.Holds h w
  | _ => True

def Orderly : Node → List Event → Prop
  | _, [] => True
  | n, e :: es => n.Allows e ∧ Orderly (n.occur e) es

/-- What the scheduler lets happen by itself is in order. -/
theorem orderly_of_isScheduled {es : List Event} (hes : ∀ e ∈ es, e.isScheduled = true) (n : Node) :
    n.Orderly es := by
  induction es generalizing n with
  | nil => trivial
  | cons e es ih =>
    refine ⟨?_, ih (fun x hx => hes x (List.mem_cons_of_mem e hx)) _⟩
    have he := hes e List.mem_cons_self
    cases e with
    | call _ | refresh | turn _ | pass _ => trivial
    | _ => cases he

theorem Attached.storeEvent {n : Node} (hn : n.Attached) {e : Store.Event}
    (he : ∀ w, e.taken? = some w → ∀ h, ¬ n.Holds h w) : (n.occur (.store e)).Attached := by
  refine ⟨hn.bounded.occur e, ?_, ?_, hn.alone⟩
  · intro r f w hf hremote
    refine (hn.registry r f w hf hremote).occur fun htaken => ?_
    exact he w htaken (.registry r) ⟨f, hf, hremote⟩
  · intro a x w hx hremote
    obtain ⟨i, hi, htracks⟩ := hn.call a x w hx hremote
    refine ⟨i, hi, htracks.occur fun htaken => ?_⟩
    exact he w htaken (.call a) ⟨x, hx, hremote⟩

/-- It does not matter how the tasks stand in line after a step of one of them. -/
theorem Attached.queued {n : Node} (hn : n.Attached) (t : Task) : (n.dequeue t).refresh.Attached :=
  hn.quiet (.of_core rfl)

theorem Attached.turn {n : Node} (hn : n.Attached) (t : Task) : (n.turn t).Attached := by
  cases t with
  | updates r => exact (hn.stepUpdates r).queued (.updates r)
  | samples r => exact (hn.quiet (quiet_stepSamples r n)).queued (.samples r)
  | attempt a => exact (hn.stepAttempt a).queued (.attempt a)
  | consumer c => exact (hn.quiet (quiet_stepConsumer c n)).queued (.consumer c)

theorem quiet_addInitializer (o : DynamicOptions) (n : Node) : Quiet n (n.addInitializer o).1 := by
  refine ⟨id, fun _ _ _ h => h, (Quiet.refl n).registry, (Quiet.refl n).call, ?_⟩
  intro i y hy
  refine ⟨y, ?_, rfl⟩
  simp only [addInitializer, List.getElem?_append_left (List.getElem?_eq_some_iff.mp hy).1, hy]

theorem quiet_call (i : Nat) (n : Node) : Quiet n (n.call i).1 := by
  refine ⟨id, fun _ _ _ h => h, (Quiet.refl n).registry, ?_, (Quiet.refl n).initializer⟩
  intro a x hx hwaits
  simp only [call, List.getElem?_append] at hx
  split at hx
  · exact ⟨x, hx, rfl, rfl⟩
  · obtain rfl := List.mem_singleton.mp (List.mem_of_getElem? hx)
    exact absurd rfl hwaits

theorem Attached.occur {n : Node} (hn : n.Attached) {e : Event} (he : n.Allows e) :
    (n.occur e).Attached := by
  cases e with
  | wake r content => cases he
  | store e => exact hn.storeEvent he
  | turn t => exact hn.turn t
  | feed _ | closeOnRead _ | addMeter _ _ | count _ _ | report _ _ | withdraw _ | register _ _
  | unregister _ _ | addHub _ | publish _ _ | addStatic _ | consume _ _ _ | look _ | join _
  | readNotices | refresh | pass _ => exact hn.quiet (.of_core (core_occur rfl n))
  | addInitializer o => exact hn.quiet (quiet_addInitializer o n)
  | watch source => exact hn.quiet (quiet_watch source n)
  | close source => exact hn.quiet (quiet_close source n)
  | withdrawDynamic r => exact hn.quiet (quiet_withdrawDynamic r n)
  | next source id => exact hn.quiet (quiet_next source id n)
  | unsubscribe source id => exact hn.quiet (quiet_modifyHub source (fun h => h.drop id) n)
  | call i => exact hn.quiet (quiet_call i n)
  | spawnInit i => exact hn.quiet ((quiet_call i n).trans (.of_core rfl))
  | cancel a =>
    exact hn.quiet (quiet_modifyAttempt a n (fun _ => rfl) fun _ => Or.inr rfl)
  | release h => exact hn.quiet (quiet_release h n)
  | streamEnd r => exact hn.quiet ((quiet_ensureClosed r n).trans (quiet_endLoop r _))

theorem Attached.run {n : Node} (hn : n.Attached) {es : List Event} (hes : n.Orderly es) :
    (n.run es).Attached := by
  induction es generalizing n with
  | nil => exact hn
  | cons e es ih => exact ih (hn.occur hes.1) hes.2

/-- When the update loop of an open registry waits and no signal has come that it has not taken, the key
that it follows is absent, or not newer than what the registry has, or unreadable, or what the registry
serves. -/
theorem no_update_left_at_rest (es : List Event) (hes : start.Orderly es) (r w : Nat) (f : Follower)
    (hf : (start.run es).followers[r]? = some f) (hremote : f.remote = .watch w)
    (hopen : f.registry.closed = false) (hrest : (start.run es).signal (.watch w) = .waiting) :
    (start.run es).store.get f.registry.key = none ∨
    ∃ v, (start.run es).store.get f.registry.key = some v ∧
      ((∃ current, f.registry.value = some current ∧ v.version ≤ current.version) ∨
        (∃ cause, v.topology = .error cause) ∨ v.topology = .ok f.registry.topology) := by
  have hattached := attached_start.run hes
  have htracks := hattached.registry r f w hf hremote
  have hsettled := htracks.get_of_waiting hrest
  rcases hsettled with hnone | hsettled
  · cases hnone
  · have hbrought := hsettled hopen
    cases hget : (start.run es).store.get f.registry.key with
    | none => exact Or.inl rfl
    | some v =>
      rw [hget] at hbrought
      exact Or.inr ⟨v, rfl, not_brought hbrought⟩

theorem no_update_left_at_rest_small : start.Orderly smallRest ∧ ∃ f v,
    (start.run smallRest).followers[0]? = some f ∧ f.registry.closed = false ∧
    (start.run smallRest).store.get f.registry.key = some v ∧
    ((∃ current, f.registry.value = some current ∧ v.version ≤ current.version) ∨
      (∃ cause, v.topology = .error cause) ∨ v.topology = .ok f.registry.topology) := by
  have hes : start.Orderly smallRest := by
    simp [smallRest, smallRun, Orderly, Allows, Store.Event.taken?]
  have hfollower : ((start.run smallRest).followers[0]?).any (fun f => f.remote = .watch 0 &&
      !f.registry.closed && ((start.run smallRest).store.get f.registry.key).isSome) = true := by
    decide +kernel
  have hrest : (start.run smallRest).signal (.watch 0) = .waiting := by
    decide +kernel
  obtain ⟨f, hf, hknown⟩ := (Option.any_eq_true ..).mp hfollower
  simp only [Bool.and_eq_true, decide_eq_true_eq, Bool.not_eq_true'] at hknown
  obtain ⟨⟨hremote, hopen⟩, hpresent⟩ := hknown
  obtain ⟨v, hv⟩ := Option.isSome_iff_exists.mp hpresent
  refine ⟨hes, f, v, hf, hopen, hv, ?_⟩
  rcases no_update_left_at_rest smallRest hes 0 0 f hf hremote hopen hrest with hnone | ⟨u, hu, hkept⟩
  · rw [hv] at hnone
    cases hnone
  · obtain rfl := Option.some.inj (hv.symm.trans hu)
    exact hkept

end NamespaceTopology.Node
