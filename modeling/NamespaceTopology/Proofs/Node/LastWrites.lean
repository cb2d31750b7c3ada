import NamespaceTopology.Proofs.Node.Newcomers

set_option autoImplicit false

/-!
The last content of a key that is closed. However the tasks of a node take turns, the update loop of a
registry takes that content in before it hears that the stream has ended, and whoever watches the registry
gets what was applied before he hears the same.
-/
namespace NamespaceTopology.Node

open NamespaceTopology.Dynamic (Move)

variable {r w : Nat} {key : String} {n : Node}

/-! ### A turn of the update loop -/

/-- A loop that is signalled takes in what the watch shows, and does not touch the store but for the
signal. -/
theorem updates_of_changed {f : Follower} (hf : n.followers[r]? = some f) (hremote : f.remote = .watch w)
    (hopen : f.registry.closed = false) {v : Store.View} (hv : n.store.Shows w key v)
    (hchanged : (n.store.look w).2 = .changed) :
    n.handed r (.turn (.updates r)) = [v.content] ∧
    (n.occur (.turn (.updates r))).store = (n.store.look w).1 ∧
    (n.occur (.turn (.updates r))).registryAt r = some (f.registry.receive v.content).1 := by
  have hsignal : (n.takeSignal f.remote).2 = .changed := by
    rw [hremote]
    exact hchanged
  have hstep := stepUpdates_of_changed hf hopen hsignal
  rw [hremote] at hstep hsignal
  have hcontent : (n.store.look w).1.contentOf w = v.content := (hv.look w).contentOf_eq
  have hwake : n.stepUpdates r = (n.takeSignal (.watch w)).1.wake r v.content := by
    rw [hstep, ← hcontent]
    rfl
  refine ⟨?_, ?_, ?_⟩
  · have hread : n.reading? r = some v.content := by
      rw [← hcontent]
      simp only [reading?, hf, hopen, hremote, Bool.false_eq_true, if_false]
      rcases htake : n.takeSignal (.watch w) with ⟨m, signal⟩
      rw [htake] at hsignal
      obtain rfl : signal = .changed := hsignal
      have hm : m.store = (n.store.look w).1 := congrArg (fun p : Node × Signal => p.1.store) htake.symm
      simp only [readRemote, hm]
    simp [handed, hread]
  · change (n.stepUpdates r).store = _
    rw [hwake, store_wake]
    rfl
  · change (n.stepUpdates r).registryAt r = _
    rw [hwake, registryAt_wake, if_pos rfl, registryAt_congr (followers_takeSignal _ n), registryAt, hf]
    rfl

/-! ### After the end of the key -/

/-- Once the cell of a registry has ended, the loop takes its content in at most once, and only if a signal
was due. -/
theorem rests_occur {last : Option Value} {due : Bool} (h : n.store.Rests w key last due)
    (hn : n.Regular) {f : Follower} (hf : n.followers[r]? = some f) (hremote : f.remote = .watch w)
    {e : Event} (he : n.Allows e) :
    (n.handed r e = [] ∧ (n.occur e).store.Rests w key last due) ∨
    (n.handed r e = [last] ∧ due = true ∧ (n.occur e).store.Rests w key last false) := by
  rcases handed_of_allows (r := r) he with hnothing | ⟨rfl, content, hread, _⟩
  · refine Or.inl ⟨hnothing, ?_⟩
    refine (store_occur_of (P := fun s => s.Sound ∧ s.Numbered ∧ s.Rests w key last due) ?_
      ⟨hn.sound, hn.numbered, h⟩ e).2.2
    rintro s e ⟨hs, hnumbered, hrests⟩
    exact ⟨hs.occur e, hnumbered.occur e, hrests.occur hs hnumbered e⟩
  · right
    obtain ⟨g, hg, hopen, hchanged⟩ := follower_of_reading? hread
    obtain rfl := Option.some.inj (hf.symm.trans hg)
    rw [hremote] at hchanged
    obtain ⟨v, hv, rfl, _, hdue⟩ := id h
    obtain ⟨hhanded, hstore, _⟩ := updates_of_changed hf hremote hopen hv hchanged
    refine ⟨hhanded, hdue ?_, hstore ▸ h.look hchanged⟩
    have hqueue := (hn.attached.registry r f w hf hremote).queueOf_eq
    rw [takeSignal, hv.look_eq hqueue] at hchanged
    by_contra hnone
    exact Store.View.signal_of_due_eq_false (Bool.eq_false_iff.mpr hnone) hchanged

theorem rests_run {last : Option Value} {due : Bool} (h : n.store.Rests w key last due)
    (hn : n.Regular) {f : Follower} (hf : n.followers[r]? = some f) (hremote : f.remote = .watch w)
    {es : List Event} (hes : n.Orderly es) :
    (n.handedAlong r es = [] ∧ (n.run es).store.Rests w key last due) ∨
    (n.handedAlong r es = [last] ∧ due = true ∧ (n.run es).store.Rests w key last false) := by
  induction es generalizing n due f with
  | nil => exact Or.inl ⟨rfl, h⟩
  | cons e es ih =>
    obtain ⟨f', hf', hpersists⟩ := persists_occur hf e
    have hremote' : f'.remote = .watch w := hpersists.remote.trans hremote
    rw [handedAlong]
    rcases rests_occur h hn hf hremote hes.1 with ⟨hnothing, hrests⟩ | ⟨hhanded, hdue, hrests⟩
    · rw [hnothing]
      exact ih hrests (hn.occur hes.1) hf' hremote' hes.2
    · rw [hhanded]
      rcases ih hrests (hn.occur hes.1) hf' hremote' hes.2 with ⟨hnothing, hrest⟩ | ⟨_, hnone, _⟩
      · rw [hnothing]
        exact Or.inr ⟨rfl, hdue, hrest⟩
      · cases hnone

theorem silent_run {last : Option Value} (h : n.store.Rests w key last false) (hn : n.Regular)
    {f : Follower} (hf : n.followers[r]? = some f) (hremote : f.remote = .watch w) {es : List Event}
    (hes : n.Orderly es) :
    n.handedAlong r es = [] ∧ (n.run es).store.Rests w key last false := by
  rcases rests_run h hn hf hremote hes with hsilent | ⟨_, hdue, _⟩
  · exact hsilent
  · cases hdue

theorem Traced.alike_after {e : Event} {d k : Dynamic} {last : Option Move} (ht : Traced r n e d k last)
    (hco : d.Coherent) (hnothing : n.handed r e = []) : Dynamic.Alike d (k.run last.toList) := by
  refine (ht.alike hco).trans (Dynamic.alike_run (ht.coherent hco) ?_)
  cases last with
  | none => rfl
  | some m =>
    rw [ht.handed] at hnothing
    exact List.filterMap_cons_none (Option.toList_eq_nil_iff.mp hnothing)

/-- A registry that is handed nothing serves what it served. -/
theorem alike_of_silent {d : Dynamic} (hd : n.registryAt r = some d) (hco : d.Coherent)
    {es : List Event} (hnothing : n.handedAlong r es = []) :
    ∃ d', (n.run es).registryAt r = some d' ∧ Dynamic.Alike d d' := by
  induction es generalizing n d with
  | nil => exact ⟨d, hd, .refl d⟩
  | cons e es ih =>
    obtain ⟨hfirst, hrest⟩ := List.append_eq_nil_iff.mp hnothing
    obtain ⟨k, last, ht⟩ := exists_traced hd e
    obtain ⟨d', hd', halike⟩ := ih ht.registry ((ht.coherent hco).run _) hrest
    exact ⟨d', hd', (ht.alike_after hco hfirst).trans halike⟩

/-- With no signal due any more, a turn of the loop of an open registry closes it, as it stands. -/
theorem closes_of_rests {last : Option Value} (h : n.store.Rests w key last false) (hn : n.Regular)
    {f : Follower} (hf : n.followers[r]? = some f) (hremote : f.remote = .watch w)
    (hopen : f.registry.closed = false) : ∃ d, (n.occur (.turn (.updates r))).registryAt r = some d ∧
      d.closed = true ∧ d.value = f.registry.value ∧ d.topology = f.registry.topology := by
  have hqueue := (hn.attached.registry r f w hf hremote).queueOf_eq
  have hended : n.loopEnds r = true := by
    refine loopEnds_iff.mpr ⟨f, hf, hopen, ?_⟩
    rw [hremote]
    exact h.look_eq_ended hqueue
  have hd : n.registryAt r = some f.registry := registryAt_of_follower hf
  obtain ⟨ms, hafter⟩ := exists_registryAt_occur hd (.turn (.updates r))
  have hclosed := closed_of_closing hafter (by simpa [closing] using hended)
  obtain ⟨hstands, _⟩ := stands_occur hd (hn.coherent r _ hd) hafter hclosed
  exact ⟨_, hafter, hclosed, hstands.value, hstands.topology⟩

/-- So it does after any run, and nothing that happens in between changes what the registry serves. -/
theorem closes_after_run {last : Option Value} (h : n.store.Rests w key last false) (hn : n.Regular)
    {f : Follower} (hf : n.followers[r]? = some f) (hremote : f.remote = .watch w) {es : List Event}
    (hes : n.Orderly es) {d : Dynamic} (hd : (n.run es).registryAt r = some d)
    (hopen : d.closed = false) : ∃ d', (n.run (es ++ [.turn (.updates r)])).registryAt r = some d' ∧
      d'.closed = true ∧ d'.value = f.registry.value ∧ d'.topology = f.registry.topology := by
  obtain ⟨hnothing, hrest⟩ := silent_run h hn hf hremote hes
  obtain ⟨g, hg, hpersists⟩ := persists_run hf es
  have hgd : (n.run es).registryAt r = some g.registry := registryAt_of_follower hg
  obtain rfl := Option.some.inj (hd.symm.trans hgd)
  obtain ⟨d', hd', hclosed, hvalue, htopology⟩ :=
    closes_of_rests hrest (hn.run hes) hg (hpersists.remote.trans hremote) hopen
  have hfd : n.registryAt r = some f.registry := registryAt_of_follower hf
  obtain ⟨_, hsame, halike⟩ := alike_of_silent hfd (hn.coherent r _ hfd) hnothing
  obtain rfl := Option.some.inj (hd.symm.trans hsame)
  refine ⟨d', ?_, hclosed, hvalue.trans halike.value, htopology.trans halike.topology⟩
  rw [run_append]
  exact hd'

/-! ### What is owed to those who watch -/

theorem Traced.owes {id : Nat} {due : Option Topology} {e : Event} {d k : Dynamic} {last : Option Move}
    (ht : Traced r n e d k last) (hco : d.Coherent) (hnothing : n.handed r e = [])
    (ho : d.hub.Owes id due) : (k.run last.toList).hub.Owes id
      (if (n.answer (.dynamic r) id e).isSome then none else due) := by
  have hk := ht.coherent hco
  have hanswer := ht.answer id
  obtain ⟨ms, hms, rfl⟩ := ht.ends
  have howes := Dynamic.owes_run_ends ho hco hms
  rw [hanswer]
  cases last with
  | none => exact howes
  | some m =>
    have hm : m.content? = none := by
      rw [ht.handed] at hnothing
      exact Option.toList_eq_nil_iff.mp hnothing
    have hafter := Dynamic.owes_after howes hk hm
    rwa [Option.bind_some, Option.isSome_map]

/-- A registry that is handed nothing owes what it owed until it is asked. -/
theorem owes_run {id : Nat} {due : Option Topology} {d : Dynamic} (hd : n.registryAt r = some d)
    (hco : d.Coherent) (ho : d.hub.Owes id due) {es : List Event} (hnothing : n.handedAlong r es = []) :
    ∃ d', (n.run es).registryAt r = some d' ∧
      d'.hub.Owes id (if n.answersAlong (.dynamic r) id es = [] then due else none) := by
  induction es generalizing n d due with
  | nil => exact ⟨d, hd, ho⟩
  | cons e es ih =>
    obtain ⟨hfirst, hrest⟩ := List.append_eq_nil_iff.mp hnothing
    obtain ⟨k, last, ht⟩ := exists_traced hd e
    obtain ⟨d', hd', ho'⟩ := ih ht.registry ((ht.coherent hco).run _) (ht.owes hco hfirst ho) hrest
    refine ⟨d', hd', ?_⟩
    rw [answersAlong]
    cases hanswer : n.answer (.dynamic r) id e with
    | none =>
      rw [hanswer] at ho'
      exact ho'
    | some x =>
      rw [hanswer] at ho'
      simpa using ho'

/-- Whoever has this watch on a registry gets `t` when he asks, once. After that he hears the end, or waits
for it while the registry is open. -/
def Yields (r id : Nat) (t : Topology) (n : Node) : Prop :=
  ∀ es d, n.Orderly es → (n.run es).registryAt r = some d → d.hub.slot? id ≠ none →
    (n.run es).peek (.dynamic r) id =
      if n.answersAlong (.dynamic r) id es = [] then .value (.topology t)
      else if d.closed then .ended else .waiting

theorem yields_of_owes {id : Nat} {t : Topology} (hn : n.Regular) {d : Dynamic}
    (hd : n.registryAt r = some d) (ho : d.hub.Owes id (some t))
    (hnothing : ∀ es, n.Orderly es → n.handedAlong r es = []) : n.Yields r id t := by
  intro es d' hes hd' hheld
  have hrun := hn.run hes
  obtain ⟨g, hg, howes⟩ := owes_run hd (hn.coherent r d hd) ho (hnothing es hes)
  obtain rfl := Option.some.inj (hd'.symm.trans hg)
  rw [peek_dynamic hd', Dynamic.peek_of_owes howes (hrun.coherent r d' hd') (hrun.releasing r d' hd')
    hheld]
  by_cases hasked : n.answersAlong (.dynamic r) id es = []
  · rw [if_pos hasked, if_pos hasked]
    rfl
  · rw [if_neg hasked, if_neg hasked]
    cases d'.closed <;> rfl

/-! ### The last content of a key -/

/-- In its next turn the update loop of a registry takes `last` in, as it does with any other content. After
that nothing comes but the end of the stream, which closes the registry as it stands. -/
structure TakesLast (r : Nat) (last : Option Value) (d : Dynamic) (n : Node) : Prop where
  ready : .updates r ∈ n.tasks ∧ n.isReady (.updates r) = true
  handed : n.handed r (.turn (.updates r)) = [last]
  received : (n.occur (.turn (.updates r))).registryAt r = some (d.receive last).1
  opened : (d.receive last).1.closed = false
  applied : ∀ v t, brought last d.value d.topology = some (v, t) → ∃ hub, d.hub.update t = .ok hub ∧
    (d.receive last).1 = { d with value := some v, topology := t, hub } ∧
    ∀ id ∈ d.hub.registered, (n.occur (.turn (.updates r))).Yields r id t
  rejected : brought last d.value d.topology = none →
    (d.receive last).1 = { d with instruments := d.instruments.count 1 }
  silent : ∀ es, (n.occur (.turn (.updates r))).Orderly es →
    (n.occur (.turn (.updates r))).handedAlong r es = []
  closes : ∀ es d', (n.occur (.turn (.updates r))).Orderly es →
    ((n.occur (.turn (.updates r))).run es).registryAt r = some d' → d'.closed = false →
    ∃ d'', ((n.occur (.turn (.updates r))).run (es ++ [.turn (.updates r)])).registryAt r = some d'' ∧
      d''.closed = true ∧ d''.value = (d.receive last).1.value ∧
      d''.topology = (d.receive last).1.topology

theorem takesLast_of_shows {last : Option Value} (hn : n.Regular) {f : Follower}
    (hf : n.followers[r]? = some f) (hremote : f.remote = .watch w) (hopen : f.registry.closed = false)
    (hv : n.store.Shows w f.registry.key ⟨last, true, false, true⟩) :
    n.TakesLast r last f.registry := by
  have hd : n.registryAt r = some f.registry := registryAt_of_follower hf
  have hco := hn.coherent r _ hd
  have hchanged : (n.store.look w).2 = .changed :=
    hv.look_eq (hn.attached.registry r f w hf hremote).queueOf_eq
  obtain ⟨hhanded, hstore, hafter⟩ := updates_of_changed hf hremote hopen hv hchanged
  have hnext : (n.occur (.turn (.updates r))).Regular := hn.occur trivial
  -- The signal is taken, and no other one comes.
  have hrests : (n.occur (.turn (.updates r))).store.Rests w f.registry.key last false := by
    have hbefore : n.store.Rests w f.registry.key last true := ⟨_, hv, rfl, rfl, id⟩
    exact hstore ▸ hbefore.look hchanged
  obtain ⟨g, hg, hpersists⟩ := persists_occur hf (.turn (.updates r))
  have hremote' : g.remote = .watch w := hpersists.remote.trans hremote
  have hgd : g.registry = (f.registry.receive last).1 := by
    have hgr : (n.occur (.turn (.updates r))).registryAt r = some g.registry :=
      registryAt_of_follower hg
    exact Option.some.inj (hgr.symm.trans hafter)
  have hsilent (es : List Event) (hes : (n.occur (.turn (.updates r))).Orderly es) :=
    (silent_run hrests hnext hg hremote' hes).1
  refine ⟨hn.staffed.ready hn.working hf hopen ?_, hhanded, hafter,
    (Dynamic.closed_receive _ _).trans hopen, ?_, Dynamic.receive_of_not_brought hco hopen, hsilent, ?_⟩
  · rw [hremote]
    change n.store.peek w ≠ .waiting
    rw [hv.peek_eq]
    simp [Store.View.signal]
  · intro v t hbrought
    obtain ⟨hub, hu, hreceived⟩ := Dynamic.receive_of_brought hco hopen hbrought
    refine ⟨hub, hu, hreceived, fun id hid => yields_of_owes hnext hafter ?_ hsilent⟩
    rw [hreceived]
    exact Dynamic.owes_update hco hu hid
  · intro es d hes hd hopen'
    rw [← hgd]
    exact closes_after_run hrests hnext hg hremote' hes hd hopen'

/-- While the loop has no turn, its watch goes on showing the last content and a signal that is due. -/
theorem shows_of_ended {last : Option Value} (h : n.Steady r w key) (hnumbered : n.store.Numbered)
    (hv : n.store.Shows w key ⟨last, true, false, true⟩) {es : List Event} (hes : n.Orderly es)
    (haside : ∀ e ∈ es, e.isAside r w = true)
    (hopen : ∀ d, (n.run es).registryAt r = some d → d.closed = false) :
    (n.run es).store.Shows w key ⟨last, true, false, true⟩ := by
  have hshows := shows_run h hnumbered hes haside hopen (Or.inl rfl) hv
  rwa [Store.View.foldl_write_of_ended rfl] at hshows

theorem open_of_loopEnds (hn : n.Coherent) {es : List Event} (hends : (n.run es).loopEnds r = true)
    {d : Dynamic} (hd : n.registryAt r = some d) : d.closed = false := by
  obtain ⟨f, hf, hopen, _⟩ := loopEnds_iff.mp hends
  exact open_of_run hd (hn r d hd) (registryAt_of_follower hf) hopen

theorem not_aside_iff {e : Event} : e.isAside r w = false ↔
    e = .turn (.updates r) ∨ e = .store (.closeWatch w) := by
  cases e with
  | turn t => cases t <;> simp [Event.isAside]
  | store e => simp [Event.isAside, Store.closes_iff]
  | _ => simp [Event.isAside]

/-- The loop does not hear the end before it has taken the last content in. -/
theorem handedAlong_of_loopEnds {last : Option Value} (hn : n.Regular) (h : n.Steady r w key)
    (hv : n.store.Shows w key ⟨last, true, false, true⟩) {es : List Event} (hes : n.Orderly es)
    (hwatch : .store (.closeWatch w) ∉ es) (hends : (n.run es).loopEnds r = true) :
    n.handedAlong r es = [last] := by
  obtain ⟨f, hf, hremote, -⟩ := h.follower
  have hchanged : (n.store.look w).2 = .changed :=
    hv.look_eq (hn.attached.registry r f w hf hremote).queueOf_eq
  induction es generalizing n f with
  | nil =>
    obtain ⟨g, hg, _, hended⟩ := loopEnds_iff.mp hends
    obtain rfl := Option.some.inj (hf.symm.trans hg)
    rw [hremote] at hended
    cases hchanged.symm.trans hended
  | cons e es ih =>
    have hopen : f.registry.closed = false :=
      open_of_loopEnds hn.coherent hends (registryAt_of_follower hf)
    obtain ⟨g, hg, hpersists⟩ := persists_occur hf e
    have hremote' : g.remote = .watch w := hpersists.remote.trans hremote
    have hnext := hn.occur hes.1
    rw [handedAlong]
    cases haside : e.isAside r w with
    | true =>
      have hshows := shows_occur h hn.numbered hes.1 haside
        (fun d hd => open_of_loopEnds hnext.coherent hends hd) (Or.inl rfl) hv
      rw [Store.View.foldl_write_of_ended rfl] at hshows
      have hnothing : n.handed r e = [] := by
        refine (handed_of_allows hes.1).resolve_right ?_
        rintro ⟨rfl, _⟩
        simp [Event.isAside] at haside
      rw [hnothing]
      exact ih hnext (h.occur hes.1) hshows hes.2 (fun hmem => hwatch (List.mem_cons_of_mem e hmem)) hends
        g hg hremote' (hshows.look_eq (hnext.attached.registry r g w hg hremote').queueOf_eq)
    | false =>
      rcases not_aside_iff.mp haside with rfl | rfl
      · obtain ⟨hhanded, hstore, _⟩ := updates_of_changed hf hremote hopen hv hchanged
        have hrests : n.store.Rests w key last true := ⟨_, hv, rfl, rfl, id⟩
        rw [hhanded, (silent_run (hstore ▸ hrests.look hchanged) hnext hg hremote' hes.2).1]
        rfl
      · exact absurd List.mem_cons_self hwatch

/-- Nothing comes to rest before the registry is closed. -/
theorem closed_at_rest {last : Option Value} {due : Bool} (h : n.store.Rests w key last due)
    (hn : n.Regular) {f : Follower} (hf : n.followers[r]? = some f) (hremote : f.remote = .watch w)
    (hidle : ∀ t ∈ n.tasks, n.isReady t = false) : f.registry.closed = true := by
  refine Bool.not_eq_false _ |>.mp fun hopen => ?_
  obtain ⟨v, hv, _, hended, _⟩ := h
  have hsignal : n.signal f.remote ≠ .waiting := by
    rw [hremote]
    change n.store.peek w ≠ .waiting
    rw [hv.peek_eq, Store.View.signal, hended]
    cases v.closed <;> cases v.due <;> simp
  obtain ⟨htask, hready⟩ := hn.staffed.ready hn.working hf hopen hsignal
  rw [hidle _ htask] at hready
  cases hready

/-- What comes of a key that was closed after `last` was put under it, for a registry whose update loop had
no turn in between. -/
structure KeyEnded (r w : Nat) (key : String) (last : Option Value) (n : Node) : Prop where
  taken : ∀ es d, n.Orderly es → (∀ e ∈ es, e.isAside r w = true) →
    (n.run es).registryAt r = some d → d.closed = false → (n.run es).TakesLast r last d
  /-- The loop does not hear the end before it has taken `last` in. -/
  ordered : ∀ es, n.Orderly es → .store (.closeWatch w) ∉ es → (n.run es).loopEnds r = true →
    n.handedAlong r es = [last]
  /-- Nothing else is handed to the registry, whatever is written to the key. -/
  once : ∀ es, n.Orderly es → n.handedAlong r es = [] ∨ n.handedAlong r es = [last]
  finished : ∀ es, n.Orderly es → (∀ t ∈ (n.run es).tasks, (n.run es).isReady t = false) →
    ∃ d, (n.run es).registryAt r = some d ∧ d.closed = true
  /-- A registry that starts to follow the key now meets only what is put there from now on. -/
  newcomers : ∀ es s f v, n.Orderly es → (n.run es).followers[s]? = some f → f.remote = .watch v →
    n.store.watches.length ≤ v → f.registry.key = key →
    (f.registry.value = none ∨ f.registry.value ∈ n.putAlong key es) ∧
    ∀ content ∈ n.handedAlong s es, content ∈ n.putAlong key es

theorem keyEnded_of_shows {last : Option Value} (hn : n.Regular) (h : n.Steady r w key)
    (hv : n.store.Shows w key ⟨last, true, false, true⟩) (hnew : n.Renewed key n.store.watches.length []) :
    n.KeyEnded r w key last := by
  obtain ⟨f, hf, hremote, rfl⟩ := h.follower
  have hrests : n.store.Rests w f.registry.key last true := ⟨_, hv, rfl, rfl, id⟩
  refine ⟨?_, fun es hes => handedAlong_of_loopEnds hn h hv hes, ?_, ?_, ?_⟩
  · intro es d hes haside hd hopen
    obtain ⟨g, hg, hpersists⟩ := persists_run hf es
    have hgd : (n.run es).registryAt r = some g.registry := registryAt_of_follower hg
    obtain rfl := Option.some.inj (hd.symm.trans hgd)
    have hshows := shows_of_ended h hn.numbered hv hes haside fun d' hd' => by
      rwa [Option.some.inj (hd'.symm.trans hd)]
    refine takesLast_of_shows (hn.run hes) hg (hpersists.remote.trans hremote) hopen ?_
    rw [hpersists.key]
    exact hshows
  · intro es hes
    exact (rests_run hrests hn hf hremote hes).imp And.left And.left
  · intro es hes hidle
    obtain ⟨g, hg, hpersists⟩ := persists_run hf es
    have hrest : ∃ due, (n.run es).store.Rests w f.registry.key last due :=
      (rests_run hrests hn hf hremote hes).elim (fun h => ⟨_, h.2⟩) fun h => ⟨_, h.2.2⟩
    obtain ⟨due, hrest⟩ := hrest
    exact ⟨g.registry, registryAt_of_follower hg,
      closed_at_rest hrest (hn.run hes) hg (hpersists.remote.trans hremote) hidle⟩
  · intro es s g v hes hg hremote' hnewer hkey
    have hrun := hnew.run hn hes
    rw [List.nil_append] at hrun
    refine ⟨hrun.stored s g v hg hremote' hnewer hkey, fun content hcontent => ?_⟩
    have hmem := hnew.handedAlong hn hes hg hremote' hnewer hkey hcontent
    rwa [List.nil_append] at hmem

/-- What was written to a key last before it was closed is still taken in by every open registry that follows
the key, whatever its update loop has missed. -/
theorem last_write_comes_before_end (es : List Event) (hes : start.Orderly es) (r w : Nat) (f : Follower)
    (hf : (start.run es).followers[r]? = some f) (hremote : f.remote = .watch w)
    (hstreams : (start.run es).store.Streams w) (before : List Event)
    (hbefore : (start.run es).Orderly before) (haside : ∀ e ∈ before, e.isAside r w = true)
    (hkey : .store (.closeKey f.registry.key) ∉ before) (last : Option Value)
    (hlast : ((start.run es).putAlong f.registry.key before).getLast? = some last) :
    let n := (start.run es).run (before ++ [.store (.closeKey f.registry.key)])
    ∀ d, n.registryAt r = some d → d.closed = false → n.KeyEnded r w f.registry.key last := by
  intro n d hd hopen
  let key := f.registry.key
  have hregular : (start.run es).Regular := regular_start.run hes
  have hsteady : (start.run es).Steady r w key :=
    ⟨hregular.attached, hregular.sound, hregular.coherent, f, hf, hremote, rfl⟩
  -- What the watch shows before, right before and right after the key is closed.
  obtain ⟨v, hv⟩ := (hregular.attached.registry r f w hf hremote).shows
  obtain ⟨hclosed, hended⟩ := hv.of_streams hstreams
  let m := (start.run es).run before
  have hm : m.Regular := hregular.run hbefore
  have hn : n = m.occur (.store (.closeKey key)) := run_append _ before _
  have hbefore' (d' : Dynamic) (hd' : m.registryAt r = some d') : d'.closed = false := by
    rw [hn] at hd
    have hclosing : (m.run [.store (.closeKey key)]).registryAt r = some d := hd
    exact open_of_run hd' (hm.coherent r d' hd') hclosing hopen
  have hshows := shows_run hsteady hregular.numbered hbefore haside hbefore' (Or.inr hkey) hv
  rw [Store.View.foldl_write_of_live hended hlast] at hshows
  have hafter : n.store.Shows w key ⟨last, true, false, true⟩ := by
    have hclosing := hshows.occur hm.sound hm.numbered (.closeKey key)
    have hview : Store.View.after w key m.store { v with content := last, due := true } (.closeKey key) =
        ⟨last, true, false, true⟩ := by
      simp [Store.View.after, Store.Event.ends, Store.Event.closes, Store.takes, Store.answer?, hclosed]
    rw [hn, ← hview]
    exact hclosing
  have hallowed : m.Allows (.store (.closeKey key)) := by simp [Allows, Store.Event.taken?]
  refine keyEnded_of_shows (hn ▸ hm.occur hallowed) ?_ hafter (renewed_closeKey hm hn)
  exact hn ▸ (hsteady.run hbefore).occur hallowed

/-- Somebody watches, and two documents are written that the update loop does not get to. -/
def smallPending : List Event :=
  [.watch (.dynamic 0), .store (.set "namespaces" (smallDocument 98)), .store (.delete "namespaces"),
    .store (.setWithVersion "namespaces" 3 (smallDocument 99))]

theorem last_write_comes_before_end_small : ∃ d,
    ((start.run smallRun).run (smallPending ++ [.store (.closeKey "namespaces")])).registryAt 0 =
      some d ∧ d.closed = false ∧
    ((start.run smallRun).run (smallPending ++ [.store (.closeKey "namespaces")])).KeyEnded 0 0
      "namespaces" (some ⟨3, smallDocument 99⟩) := by
  have hes : start.Orderly smallRun := by
    simp [smallRun, Orderly, Allows, Store.Event.taken?]
  have hbefore : (start.run smallRun).Orderly smallPending := by
    simp [smallPending, Orderly, Allows, Store.Event.taken?]
  have hfollower : ((start.run smallRun).followers[0]?).any (fun f => f.remote = .watch 0 &&
      f.registry.key = "namespaces") = true := by
    decide +kernel
  have hstreams : (start.run smallRun).store.Streams 0 := by
    refine ⟨by decide +kernel, ?_⟩
    rintro ⟨x, c, _, hc, hended⟩
    have hlive : ∀ c ∈ (start.run smallRun).store.cells, c.ended = false := by
      decide +kernel
    rw [hlive c (List.mem_of_getElem? hc)] at hended
    cases hended
  have hlast : ((start.run smallRun).putAlong "namespaces" smallPending).getLast? =
      some (some ⟨3, smallDocument 99⟩) := by
    decide +kernel
  have hopen : (((start.run smallRun).run (smallPending ++
      [.store (.closeKey "namespaces")])).registryAt 0).any (fun d => !d.closed) = true := by
    decide +kernel
  obtain ⟨f, hf, hknown⟩ := (Option.any_eq_true ..).mp hfollower
  obtain ⟨hremote, hkey⟩ : f.remote = .watch 0 ∧ f.registry.key = "namespaces" := by
    simpa using hknown
  obtain ⟨d, hd, hopen⟩ := (Option.any_eq_true ..).mp hopen
  have hopen : d.closed = false := by simpa using hopen
  rw [← hkey] at hlast hd ⊢
  refine ⟨d, hd, hopen, ?_⟩
  exact last_write_comes_before_end smallRun hes 0 0 f hf hremote hstreams smallPending hbefore
    (by simp [smallPending, Event.isAside, Store.Event.closes]) (by simp [smallPending])
    (some ⟨3, smallDocument 99⟩) hlast d hd hopen

end NamespaceTopology.Node
