import NamespaceTopology.Proofs.Broadcast.Deliveries
import NamespaceTopology.Proofs.Metrics.Exports
import NamespaceTopology.Proofs.Registry.Deliveries

set_option autoImplicit false

/-!
A registry that is closed: it serves for ever what it served when it was closed, publishes nothing, and
gives whoever watches it what waited for him and nothing else.
-/
namespace NamespaceTopology

namespace Dynamic

def Move.isClose : Move → Bool
  | .close _ => true
  | _ => false

def Move.isWithdrawal : Move → Bool
  | .close _ | .withdraw _ => true
  | _ => false

/-! ### Who closes a registry -/

theorem closed_after {d : Dynamic} {m : Move} (hm : m.isClose = false) :
    (d.after m).closed = d.closed := by
  cases m with
  | watch =>
    rcases after_watch_cases d with heq | ⟨_, _, _, heq⟩ <;> rw [heq]
  | close e => cases hm
  | withdraw _ | next _ | drop _ => rfl
  | sample =>
    obtain ⟨_, _, heq⟩ := after_sample d
    rw [heq]
  | receive content => exact closed_receive d content

theorem close_of_closed {d : Dynamic} (hc : d.closed = true) (e : Exposition) :
    d.close e = .error (.lifecycle .alreadyClosed) := by
  unfold close
  rw [if_pos hc]

theorem exists_close {d : Dynamic} (hopen : d.closed = false) (e : Exposition) :
    ∃ d' e' notices, d.close e = .ok (d', e', notices) := by
  unfold close
  rw [if_neg (by simp [hopen])]
  exact ⟨_, _, _, rfl⟩

theorem closed_of_close {d d' : Dynamic} {e e' : Exposition} {notices : List Notice}
    (h : d.close e = .ok (d', e', notices)) : d.closed = false ∧ d'.closed = true := by
  unfold close at h
  split at h
  · cases h
  next hopen =>
    obtain ⟨rfl, _⟩ := Prod.mk.inj (Except.ok.inj h)
    exact ⟨by simpa using hopen, rfl⟩

theorem watch_of_closed {d : Dynamic} (hc : d.closed = true) :
    d.watch = .error (.lifecycle .closed) := by
  unfold watch
  rw [if_pos hc]

/-! ### Instruments -/

theorem same_receive (d : Dynamic) (content : Option Value) :
    Instruments.Same d.instruments (d.receive content).1.instruments := by
  unfold receive
  split
  · unfold apply
    simp only
    split <;> exact ⟨rfl, rfl, rfl, rfl⟩
  · exact ⟨rfl, rfl, rfl, rfl⟩
  · exact ⟨rfl, rfl, rfl, rfl⟩

theorem same_after {d : Dynamic} {m : Move} (hm : m.isWithdrawal = false) :
    Instruments.Same d.instruments (d.after m).instruments := by
  cases m with
  | watch =>
    rcases after_watch_cases d with heq | ⟨_, _, _, heq⟩ <;> rw [heq] <;> exact ⟨rfl, rfl, rfl, rfl⟩
  | close _ | withdraw _ => cases hm
  | next id | drop id => exact ⟨rfl, rfl, rfl, rfl⟩
  | sample =>
    simp only [after, sample]
    split
    · split <;> exact ⟨rfl, rfl, rfl, rfl⟩
    · exact ⟨rfl, rfl, rfl, rfl⟩
  | receive content => exact same_receive d content

theorem isClose_of_isWithdrawal {m : Move} (h : m.isWithdrawal = false) : m.isClose = false := by
  cases m with
  | close _ => cases h
  | watch | withdraw _ | next _ | drop _ | sample | receive _ => rfl

/-- Who takes the metrics of a registry back takes back all of its instruments that are shown. -/
theorem withdrawn_of_withdraw (d : Dynamic) (e : Exposition) :
    (d.withdraw e).1.instruments.owner = d.instruments.owner ∧
      (∀ c, ¬ (d.withdraw e).1.instruments.Exports c) ∧
      ∀ c, (d.withdraw e).2.1.Shows c → e.Shows c ∧ ¬ d.instruments.Exports c := by
  refine ⟨rfl, ?_, fun c hc => Instruments.shows_withdraw hc⟩
  rintro c (⟨_, hshown⟩ | ⟨_, hshown⟩) <;> cases hshown

/-- Who closes a registry takes back all of its instruments that are shown. -/
theorem withdrawn_of_close {d d' : Dynamic} {e e' : Exposition} {notices : List Notice}
    (h : d.close e = .ok (d', e', notices)) : d'.instruments.owner = d.instruments.owner ∧
      (∀ c, ¬ d'.instruments.Exports c) ∧
      ∀ c, e'.Shows c → e.Shows c ∧ ¬ d.instruments.Exports c := by
  unfold close at h
  split at h
  · cases h
  · obtain ⟨rfl, hrest⟩ := Prod.mk.inj (Except.ok.inj h)
    have he : (d.instruments.withdraw e).2.1 = e' := (Prod.mk.inj hrest).1
    subst he
    refine ⟨rfl, ?_, fun c hc => Instruments.shows_withdraw hc⟩
    rintro c (⟨_, hshown⟩ | ⟨_, hshown⟩) <;> cases hshown

theorem owner_after (d : Dynamic) (m : Move) :
    (d.after m).instruments.owner = d.instruments.owner := by
  cases hm : m.isWithdrawal with
  | false => exact (same_after hm).owner
  | true =>
    cases m with
    | close e =>
      simp only [after]
      split
      next d' e' notices h => exact (withdrawn_of_close h).1
      next => rfl
    | withdraw e => rfl
    | watch | next _ | drop _ | sample | receive _ => cases hm

theorem owner_run (d : Dynamic) (ms : List Move) :
    (d.run ms).instruments.owner = d.instruments.owner := by
  induction ms generalizing d with
  | nil => rfl
  | cons m ms ih => exact (ih (d.after m)).trans (owner_after d m)

/-! ### Nothing is published any more -/

theorem alike_after_of_closed {d : Dynamic} (hd : d.Coherent) (hc : d.closed = true) (m : Move) :
    (d.after m).value = d.value ∧ (d.after m).topology = d.topology ∧
      (d.after m).hub.latest = d.hub.latest := by
  cases hm : m.content? with
  | none =>
    have halike := alike_after hd hm
    exact ⟨halike.value, halike.topology, halike.latest⟩
  | some content =>
    obtain rfl := Move.content?_eq_some hm
    have heq : d.after (.receive content) = (d.receive content).1 := rfl
    rw [heq]
    rcases receive_cases hd content with ⟨v, t, _, hok, _⟩ | ⟨_, _, hsame⟩ | ⟨_, hsame⟩
    · obtain ⟨_, _, _, _, hopen⟩ := examine_eq_ok.mp hok
      rw [hc] at hopen
      cases hopen
    · rw [hsame]
      exact ⟨rfl, rfl, rfl⟩
    · rw [hsame]
      exact ⟨rfl, rfl, rfl⟩

/-- To a registry that is closed an update only comes too late if an open one would have applied it. -/
theorem examine_of_closed {d : Dynamic} (hc : d.closed = true) (content : Option Value) :
    (∃ version, d.examine content = .error (.closed version)) ↔
      brought content d.value d.topology ≠ none := by
  constructor
  · rintro ⟨version, h⟩
    cases content with
    | none => cases h
    | some v =>
      simp only [examine] at h
      split at h
      · cases h
      next hnewer =>
        split at h
        · cases h
        next t ht =>
          split at h
          · cases h
          next hne =>
            have hnewer : v.isNewer d.value = true := by simpa using hnewer
            rw [brought_eq_some.mpr ⟨rfl, (Value.isNewer_iff v d.value).mp hnewer, ht, hne⟩]
            simp
  · intro h
    obtain ⟨⟨v, t⟩, hb⟩ := Option.ne_none_iff_exists'.mp h
    obtain ⟨rfl, hnewer, ht, hne⟩ := brought_eq_some.mp hb
    have hnewer := (Value.isNewer_iff v d.value).mpr hnewer
    exact ⟨v.version, by simp [examine, hnewer, ht, hne, hc]⟩

/-- What a registry that is closed does with an update: one that came too late is passed over, and any
other is counted. -/
theorem rejected_receive_of_closed {d : Dynamic} (hc : d.closed = true) (content : Option Value) :
    (d.receive content).1.instruments.rejected = d.instruments.rejected +
      if brought content d.value d.topology = none then 1 else 0 := by
  cases hx : d.examine content with
  | ok p =>
    obtain ⟨v, t⟩ := p
    obtain ⟨_, _, _, _, hopen⟩ := examine_eq_ok.mp hx
    rw [hc] at hopen
    cases hopen
  | error rejection =>
    have hlate := examine_of_closed hc content
    unfold receive
    rw [hx] at hlate ⊢
    cases rejection with
    | closed version =>
      rw [if_neg (hlate.mp ⟨version, rfl⟩)]
      exact (UInt64.add_zero _).symm
    | absent | stale _ _ | invalid _ _ | unchanged _ =>
      have hnone : brought content d.value d.topology = none := by
        refine Classical.byContradiction fun hne => ?_
        obtain ⟨version, heq⟩ := hlate.mpr hne
        cases heq
      rw [if_pos hnone]
      rfl

/-- How many of some contents are counted as rejected by a registry that goes on to serve what it does. -/
def lost (d : Dynamic) (contents : List (Option Value)) : Nat :=
  contents.countP fun content => (brought content d.value d.topology).isNone

/-- A registry shows what it showed, and has only counted what is lost of some contents. -/
structure Stands (contents : List (Option Value)) (d d' : Dynamic) : Prop where
  value : d'.value = d.value
  topology : d'.topology = d.topology
  latest : d'.hub.latest = d.hub.latest
  rejected : d'.instruments.rejected = d.instruments.rejected + UInt64.ofNat (d.lost contents)

theorem Alike.stands {d d' : Dynamic} (h : Alike d d') : Stands [] d d' :=
  ⟨h.value, h.topology, h.latest, h.rejected.trans (UInt64.add_zero _).symm⟩

theorem Stands.trans {cs cs' : List (Option Value)} {d d' d'' : Dynamic} (h : Stands cs d d')
    (h' : Stands cs' d' d'') : Stands (cs ++ cs') d d'' := by
  refine ⟨h'.value.trans h.value, h'.topology.trans h.topology, h'.latest.trans h.latest, ?_⟩
  have hlost : d'.lost cs' = d.lost cs' := by rw [lost, lost, h.value, h.topology]
  have hsum : d.lost (cs ++ cs') = d.lost cs + d.lost cs' := List.countP_append
  rw [h'.rejected, h.rejected, hlost, hsum, UInt64.ofNat_add, UInt64.add_assoc]

theorem stands_after {d : Dynamic} (hd : d.Coherent) {m : Move} (hc : (d.after m).closed = true) :
    Stands m.content?.toList d (d.after m) := by
  cases hm : m.content? with
  | none => exact (alike_after hd hm).stands
  | some content =>
    obtain rfl := Move.content?_eq_some hm
    have hbefore : d.closed = true := (closed_receive d content).symm.trans hc
    obtain ⟨hvalue, htopology, hlatest⟩ := alike_after_of_closed hd hbefore (.receive content)
    refine ⟨hvalue, htopology, hlatest, (rejected_receive_of_closed hbefore content).trans ?_⟩
    cases hb : brought content d.value d.topology <;> simp [lost, hb]

/-! ### What is still delivered -/

def Released (d : Dynamic) : Prop := d.hub.closed = true → d.hub.registered = []

theorem released_start (o : DynamicOptions) (i : Instruments) (first : Option (Value × Topology)) :
    (start o i first).Released := by
  intro hc
  cases hc

theorem Released.after {d : Dynamic} (h : d.Released) (hd : d.Coherent) (m : Move) :
    (d.after m).Released := by
  have hsame {d' : Dynamic} (heq : d'.hub = d.hub) : d'.Released := by
    intro hc
    rw [heq] at hc ⊢
    exact h hc
  cases m with
  | watch =>
    rcases after_watch_cases d with heq | ⟨hub, id, hs, heq⟩
    · exact hsame (by rw [heq])
    · obtain ⟨hopen, _, rfl⟩ := Hub.subscribe_eq_ok hs
      rw [heq]
      intro hc
      rw [hopen] at hc
      cases hc
  | close e =>
    rcases after_close_cases hd e with ⟨_, heq⟩ | ⟨_, hub, instruments, hc, _, heq⟩
    · exact hsame (by rw [heq])
    · obtain ⟨_, rfl⟩ := Hub.close_eq_ok hc
      rw [heq]
      exact fun _ => rfl
  | withdraw _ => exact h
  | next id =>
    intro hc
    change (d.hub.next id).1.closed = true at hc
    rw [Hub.closed_next] at hc
    change (d.hub.next id).1.registered = []
    rw [← h hc, Hub.next]
    split <;> rfl
  | drop id =>
    intro hc
    change d.hub.registered.filter _ = []
    rw [h hc]
    rfl
  | sample =>
    obtain ⟨_, _, heq⟩ := after_sample d
    exact hsame (by rw [heq])
  | receive content =>
    have heq : d.after (.receive content) = (d.receive content).1 := rfl
    rcases receive_cases hd content with ⟨v, t, hub, _, hu, hr⟩ | ⟨_, _, hr⟩ | ⟨_, hr⟩
    · obtain ⟨hopen, rfl⟩ := Hub.update_eq_ok hu
      rw [heq, hr]
      intro hc
      rw [hopen] at hc
      cases hc
    · exact hsame (by rw [heq, hr])
    · exact hsame (by rw [heq, hr])

theorem Released.run {d : Dynamic} (h : d.Released) (hd : d.Coherent) (ms : List Move) :
    (d.run ms).Released := by
  induction ms generalizing d with
  | nil => exact h
  | cons m ms ih => exact ih (h.after hd m) (hd.after m)

def pending? (id : Nat) (d : Dynamic) : Option Topology := (d.hub.peek id).value?

theorem pending?_eq_some {id : Nat} {d : Dynamic} {t : Topology} :
    d.pending? id = some t ↔ d.hub.slot? id = some (.unseen t) := Hub.value?_peek_eq_some

theorem pending?_eq_none {id : Nat} {d : Dynamic} :
    d.pending? id = none ↔ ∀ t, d.hub.slot? id ≠ some (.unseen t) := Hub.value?_peek_eq_none

theorem pending?_congr {id : Nat} {d d' : Dynamic} (h : d'.hub.slot? id = d.hub.slot? id) :
    d'.pending? id = d.pending? id := by
  refine Option.ext fun t => ?_
  rw [pending?_eq_some, pending?_eq_some, h]

theorem pending?_after_end {d : Dynamic} (hd : d.Coherent) {m : Move} (hm : m.isEnd = true)
    (id : Nat) : (d.after m).pending? id = d.pending? id ∨ (d.after m).pending? id = none := by
  cases m with
  | close e =>
    left
    rcases after_close_cases hd e with ⟨_, heq⟩ | ⟨_, hub, _, hc, _, heq⟩
    · rw [heq]
    · obtain ⟨_, rfl⟩ := Hub.close_eq_ok hc
      rw [heq]
      exact pending?_congr rfl
  | withdraw _ => exact Or.inl (pending?_congr rfl)
  | drop i =>
    by_cases hi : id = i
    · subst hi
      right
      rw [pending?_eq_none]
      intro t ht
      have hgone : (d.after (.drop id)).hub.slot? id = none := Hub.slot?_drop_self d.hub id
      rw [hgone] at ht
      cases ht
    · exact Or.inl (pending?_congr (Hub.slot?_drop_other d.hub hi))
  | watch | next _ | sample | receive _ => cases hm

theorem pending?_run_ends {d : Dynamic} (hd : d.Coherent) {ms : List Move}
    (hms : ∀ m ∈ ms, m.isEnd = true) (id : Nat) :
    (d.run ms).pending? id = d.pending? id ∨ (d.run ms).pending? id = none := by
  induction ms generalizing d with
  | nil => exact Or.inl rfl
  | cons m ms ih =>
    have hfirst := pending?_after_end hd (hms m List.mem_cons_self) id
    rcases ih (hd.after m) (fun x hx => hms x (List.mem_cons_of_mem m hx)) with hsame | hnone
    · exact hfirst.imp hsame.trans hsame.trans
    · exact Or.inr hnone

/-- A move that leaves a registry closed and does not answer a subscription brings it nothing. -/
theorem pending?_after {id : Nat} {d : Dynamic} (hd : d.Coherent) {m : Move}
    (hc : (d.after m).closed = true) (hanswer : d.answer id m = none) :
    (d.after m).pending? id = d.pending? id ∨ (d.after m).pending? id = none := by
  cases hend : m.isEnd with
  | true => exact pending?_after_end hd hend id
  | false =>
    left
    have hbefore (hm : m.isClose = false) : d.closed = true := (closed_after hm).symm.trans hc
    cases m with
    | close _ | withdraw _ | drop _ => cases hend
    | watch => simp [after, watch_of_closed (hbefore rfl)]
    | sample =>
      obtain ⟨_, _, heq⟩ := after_sample d
      rw [heq]
      exact pending?_congr rfl
    | receive content =>
      have heq : d.after (.receive content) = (d.receive content).1 := rfl
      rcases receive_cases hd content with ⟨_, _, _, hok, _⟩ | ⟨_, _, hr⟩ | ⟨_, hr⟩
      · obtain ⟨_, _, _, _, hopen⟩ := examine_eq_ok.mp hok
        rw [hbefore rfl] at hopen
        cases hopen
      · rw [heq, hr]
      · rw [heq, hr]
        exact pending?_congr rfl
    | next i =>
      refine pending?_congr (Hub.slot?_next_other ?_)
      rintro rfl
      rw [answer, if_pos rfl] at hanswer
      cases hanswer

/-- The one who asks a closed registry gets what waited for him, or hears that the watch has ended. After
that nothing waits for him. -/
theorem next_of_closed {d : Dynamic} (hd : d.Coherent) (hr : d.Released) (hc : d.closed = true)
    (id : Nat) : (d.after (.next id)).pending? id = none ∧
      (d.hub.next id).2 = (d.pending? id).elim .ended .value := by
  cases hp : d.pending? id with
  | some t =>
    have hslot := pending?_eq_some.mp hp
    refine ⟨?_, by rw [Hub.next_of_unseen hslot]; rfl⟩
    rw [pending?_eq_none, slot?_after_next_of_unseen hslot]
    exact fun u hu => nomatch hu
  | none =>
    have hslot := pending?_eq_none.mp hp
    have hnext := Hub.next_of_not_unseen hslot
    refine ⟨?_, ?_⟩
    · rw [pending?_eq_none, after_next_of_not_unseen hslot]
      exact hslot
    · have hregistered := hr (hd.closed.trans hc)
      have hvalue (a : Topology) : d.hub.peek id ≠ .value a :=
        fun ha => hslot a (Hub.peek_eq_value.mp ha)
      rw [hnext]
      unfold Hub.peek at hvalue ⊢
      split
      next a ha =>
        exact absurd (by rw [ha]) (hvalue a)
      next =>
        rw [hregistered, if_neg List.not_mem_nil]
        rfl

/-! ### What is owed to a subscription -/

/-- A move that takes nothing in leaves owed what was owed, unless it is delivered. -/
theorem owes_after {id : Nat} {due : Option Topology} {d : Dynamic} (ho : d.hub.Owes id due)
    (hd : d.Coherent) {m : Move} (hm : m.content? = none) :
    (d.after m).hub.Owes id (if (d.answer id m).isSome then none else due) := by
  cases hanswer : d.answer id m with
  | none =>
    obtain ⟨hnext, hslot⟩ := slot?_after hd ho.below hm hanswer
    exact ⟨Nat.lt_of_lt_of_le ho.below hnext, fun slot hs => ho.slot slot (hslot slot hs)⟩
  | some x =>
    obtain ⟨rfl, rfl⟩ := answer_eq_some hanswer
    exact ho.next

theorem owes_run_ends {id : Nat} {due : Option Topology} {d : Dynamic} (ho : d.hub.Owes id due)
    (hd : d.Coherent) {ms : List Move} (hms : ∀ m ∈ ms, m.isEnd = true) :
    (d.run ms).hub.Owes id due := by
  induction ms generalizing d with
  | nil => exact ho
  | cons m ms ih =>
    have hm := hms m List.mem_cons_self
    refine ih ?_ (hd.after m) fun x hx => hms x (List.mem_cons_of_mem m hx)
    cases m with
    | close e => exact owes_after ho hd (m := .close e) rfl
    | withdraw e => exact owes_after ho hd (m := .withdraw e) rfl
    | drop i => exact owes_after ho hd (m := .drop i) rfl
    | watch | next _ | sample | receive _ => cases hm

/-- Whoever still has a subscription is told what is owed to it. When nothing is, it waits while the
registry is open, and has ended once it is closed. -/
theorem peek_of_owes {id : Nat} {due : Option Topology} {d : Dynamic} (ho : d.hub.Owes id due)
    (hd : d.Coherent) (hr : d.Released) (hheld : d.hub.slot? id ≠ none) :
    d.hub.peek id = due.elim (if d.closed then .ended else .waiting) .value := by
  obtain ⟨slot, hslot⟩ := Option.ne_none_iff_exists'.mp hheld
  have hregistered : id ∈ d.hub.registered ↔ d.hub.closed = false := by
    constructor
    · intro hid
      refine Bool.eq_false_iff.mpr fun hclosed => ?_
      rw [hr hclosed] at hid
      cases hid
    · intro hopen
      obtain ⟨s, hs, rfl, _⟩ := Hub.mem_of_slot? hslot
      exact hd.synced.registered hopen s hs
  rw [ho.peek_eq_told hslot hregistered, ← hd.closed]
  cases due <;> rfl

/-- What has just been published is owed to everybody who has a subscription. -/
theorem owes_update {id : Nat} {t : Topology} {d : Dynamic} (hd : d.Coherent) {hub : Hub Topology}
    (hu : d.hub.update t = .ok hub) (hid : id ∈ d.hub.registered) : hub.Owes id (some t) := by
  obtain ⟨s, hs, rfl⟩ := hd.synced.had id hid
  have hbelow := hd.synced.below s hs
  refine ⟨?_, fun slot hslot => ?_⟩
  · obtain ⟨_, rfl⟩ := Hub.update_eq_ok hu
    exact hbelow
  · rw [Hub.slot?_update hd.synced hu] at hslot
    obtain ⟨_, _, rfl⟩ := Option.map_eq_some_iff.mp hslot
    rfl

end Dynamic

end NamespaceTopology
