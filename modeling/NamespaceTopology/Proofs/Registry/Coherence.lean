import NamespaceTopology.Proofs.Broadcast.Slots
import NamespaceTopology.Proofs.Document.Topology
import NamespaceTopology.Registry.Basic

set_option autoImplicit false

/-!
Everything that can happen to a dynamic registry, as moves, and the invariant that every move keeps:
value, topology and hub tell the same story. What the update loop reads at a signal is left open, so
the moves cover a remote side that hands out anything at any time, also to a registry that is closed.
-/
namespace NamespaceTopology

namespace Dynamic

inductive Move where
  | watch
  /-- Somebody closes it, the exposition being as given. -/
  | close (e : Exposition)
  /-- Somebody takes its metrics out of the exposition. -/
  | withdraw (e : Exposition)
  | next (id : Nat)
  | drop (id : Nat)
  | sample
  /-- The update loop is signalled and reads some content. -/
  | receive (content : Option Value)

def after (d : Dynamic) : Move → Dynamic
  | .watch => match d.watch with
    | .ok (d, _) => d
    | .error _ => d
  | .close e => match d.close e with
    | .ok (d, _, _) => d
    | .error _ => d
  | .withdraw e => (d.withdraw e).1
  | .next id => { d with hub := (d.hub.next id).1 }
  | .drop id => { d with hub := d.hub.drop id }
  | .sample => d.sample
  | .receive content => (d.receive content).1

def run (d : Dynamic) (ms : List Move) : Dynamic := ms.foldl after d

structure Coherent (d : Dynamic) : Prop where
  stored : ∀ v, d.value = some v → v.topology = .ok d.topology
  unstored : d.value = none → d.topology = Keyed.empty
  latest : d.hub.latest = d.value.map fun _ => d.topology
  closed : d.hub.closed = d.closed
  synced : d.hub.Synced

theorem coherent_start (o : DynamicOptions) (i : Instruments) (first : Option (Value × Topology))
    (h : ∀ v t, first = some (v, t) → v.topology = .ok t) : (start o i first).Coherent := by
  cases first with
  | none =>
    exact ⟨fun v hv => absurd hv (by simp [start]), fun _ => rfl, rfl, rfl, Hub.synced_start _⟩
  | some p =>
    obtain ⟨w, t⟩ := p
    refine ⟨?_, fun hv => absurd hv (by simp [start]), rfl, rfl, Hub.synced_start _⟩
    intro v hv
    cases hv
    exact h _ _ rfl

/-! ### What each move can do -/

theorem examine_eq_ok {d : Dynamic} {content : Option Value} {v : Value} {t : Topology} :
    d.examine content = .ok (v, t) ↔ content = some v ∧ v.isNewer d.value = true ∧
      v.topology = .ok t ∧ t ≠ d.topology ∧ d.closed = false := by
  cases content with
  | none => simp [examine]
  | some w =>
    constructor
    · intro h
      simp only [examine] at h
      split at h
      · cases h
      next hnewer =>
        split at h
        · cases h
        next t' ht =>
          split at h
          · cases h
          next hne =>
            split at h
            · cases h
            next hopen =>
              obtain ⟨rfl, rfl⟩ := Prod.mk.inj (Except.ok.inj h)
              exact ⟨rfl, by simpa using hnewer, ht, hne, by simpa using hopen⟩
    · rintro ⟨hw, hnewer, ht, hne, hopen⟩
      obtain rfl := Option.some.inj hw
      simp [examine, hnewer, ht, hne, hopen]

theorem closed_of_examine {d : Dynamic} {content : Option Value} {version : Int64}
    (h : d.examine content = .error (.closed version)) : d.closed = true := by
  cases content with
  | none => cases h
  | some w =>
    simp only [examine] at h
    split at h
    · cases h
    · split at h
      · cases h
      · split at h
        · cases h
        · split at h
          · assumption
          · cases h

/-- An update that is dropped for another reason than that the registry is closed is counted. -/
theorem receive_cases {d : Dynamic} (hd : d.Coherent) (content : Option Value) :
    (∃ v t hub, d.examine content = .ok (v, t) ∧ d.hub.update t = .ok hub ∧
      (d.receive content).1 = { d with value := some v, topology := t, hub }) ∨
    ((∃ r, d.examine content = .error r) ∧ d.closed = true ∧ (d.receive content).1 = d) ∨
    ((∃ r, d.examine content = .error r) ∧
      (d.receive content).1 = { d with instruments := d.instruments.count 1 }) := by
  unfold receive
  cases hx : d.examine content with
  | ok p =>
    obtain ⟨v, t⟩ := p
    left
    have hopen : d.hub.closed = false := hd.closed.trans (examine_eq_ok.mp hx).2.2.2.2
    obtain ⟨hub, hu⟩ := Hub.exists_update_of_open t hopen
    exact ⟨v, t, hub, rfl, hu, by simp [apply, hu]⟩
  | error r =>
    right
    cases r with
    | closed version => exact Or.inl ⟨⟨_, rfl⟩, closed_of_examine hx, rfl⟩
    | absent | stale _ _ | invalid _ _ | unchanged _ => exact Or.inr ⟨⟨_, rfl⟩, rfl⟩

theorem watch_eq_ok {d d' : Dynamic} {id : Nat} (h : d.watch = .ok (d', id)) :
    d.closed = false ∧ ∃ hub, d.hub.subscribe = .ok (hub, id) ∧ d' = { d with hub } := by
  unfold watch at h
  split at h
  · cases h
  · next hopen =>
    cases hs : d.hub.subscribe with
    | error e => simp [hs] at h
    | ok p =>
      obtain ⟨hub, i⟩ := p
      simp only [hs] at h
      obtain ⟨rfl, rfl⟩ := Prod.mk.inj (Except.ok.inj h)
      exact ⟨by simpa using hopen, hub, rfl, rfl⟩

theorem after_watch_cases (d : Dynamic) : d.after .watch = d ∨
    ∃ hub id, d.hub.subscribe = .ok (hub, id) ∧ d.after .watch = { d with hub } := by
  cases hw : d.watch with
  | error e => exact Or.inl (by simp [after, hw])
  | ok p =>
    obtain ⟨d', id⟩ := p
    obtain ⟨_, hub, hs, rfl⟩ := watch_eq_ok hw
    exact Or.inr ⟨hub, id, hs, by simp [after, hw]⟩

theorem close_eq_ok {d d' : Dynamic} (hd : d.Coherent) {e e' : Exposition} {notices : List Notice}
    (h : d.close e = .ok (d', e', notices)) : d.closed = false ∧ ∃ hub instruments,
      d.hub.close = .ok hub ∧ instruments.rejected = d.instruments.rejected ∧
      d' = { d with closed := true, hub, instruments } := by
  unfold close at h
  split at h
  · cases h
  · next hopen =>
    have hopen : d.closed = false := by simpa using hopen
    have hc := Hub.close_of_open (hd.closed.trans hopen)
    rw [hc] at h
    obtain ⟨rfl, _⟩ := Prod.mk.inj (Except.ok.inj h)
    refine ⟨hopen, _, _, hc, ?_, rfl⟩
    rfl

theorem after_close_cases {d : Dynamic} (hd : d.Coherent) (e : Exposition) :
    (d.closed = true ∧ d.after (.close e) = d) ∨ (d.closed = false ∧ ∃ hub instruments,
      d.hub.close = .ok hub ∧ instruments.rejected = d.instruments.rejected ∧
      d.after (.close e) = { d with closed := true, hub, instruments }) := by
  cases hc : d.close e with
  | error x =>
    left
    refine ⟨?_, by simp [after, hc]⟩
    unfold close at hc
    split at hc
    · assumption
    · cases hc
  | ok p =>
    obtain ⟨d', e', notices⟩ := p
    obtain ⟨hopen, hub, instruments, hhub, hrejected, rfl⟩ := close_eq_ok hd hc
    exact Or.inr ⟨hopen, hub, instruments, hhub, hrejected, by simp [after, hc]⟩

theorem after_sample (d : Dynamic) : ∃ instruments : Instruments,
    instruments.rejected = d.instruments.rejected ∧ d.after .sample = { d with instruments } := by
  simp only [after, sample]
  split
  · split
    · exact ⟨d.instruments, rfl, rfl⟩
    · refine ⟨_, ?_, rfl⟩
      rfl
  · exact ⟨d.instruments, rfl, rfl⟩

/-! ### Every move keeps the registry coherent -/

theorem Coherent.withHub {d : Dynamic} (hd : d.Coherent) {hub : Hub Topology} (hs : hub.Synced)
    (hl : hub.latest = d.hub.latest) (hc : hub.closed = d.hub.closed) :
    Coherent { d with hub } where
  stored := hd.stored
  unstored := hd.unstored
  latest := hl.trans hd.latest
  closed := hc.trans hd.closed
  synced := hs

theorem Coherent.withInstruments {d : Dynamic} (hd : d.Coherent) (instruments : Instruments) :
    Coherent { d with instruments } :=
  ⟨hd.stored, hd.unstored, hd.latest, hd.closed, hd.synced⟩

theorem Coherent.receive {d : Dynamic} (hd : d.Coherent) (content : Option Value) :
    (d.receive content).1.Coherent := by
  rcases receive_cases hd content with ⟨v, t, hub, hok, hu, heq⟩ | ⟨_, _, heq⟩ | ⟨_, heq⟩
  · rw [heq]
    obtain ⟨_, _, ht, _, hopen⟩ := examine_eq_ok.mp hok
    obtain ⟨hhub, rfl⟩ := Hub.update_eq_ok hu
    refine ⟨?_, fun hv => absurd hv (by simp), rfl, ?_, hd.synced.update hu⟩
    · intro w hw
      obtain rfl := Option.some.inj hw
      exact ht
    · exact hhub.trans hopen.symm
  · rw [heq]
    exact hd
  · rw [heq]
    exact hd.withInstruments _

theorem Coherent.after {d : Dynamic} (hd : d.Coherent) (m : Move) : (d.after m).Coherent := by
  cases m with
  | watch =>
    rcases after_watch_cases d with heq | ⟨hub, id, hs, heq⟩
    · rw [heq]
      exact hd
    · rw [heq]
      have hsynced := hd.synced.subscribe hs
      obtain ⟨_, _, rfl⟩ := Hub.subscribe_eq_ok hs
      exact hd.withHub hsynced rfl rfl
  | close e =>
    rcases after_close_cases hd e with ⟨_, heq⟩ | ⟨_, hub, instruments, hc, _, heq⟩
    · rw [heq]
      exact hd
    · rw [heq]
      have hsynced := hd.synced.close hc
      obtain ⟨_, rfl⟩ := Hub.close_eq_ok hc
      exact ⟨hd.stored, hd.unstored, hd.latest, rfl, hsynced⟩
  | withdraw e => exact hd.withInstruments _
  | next id =>
    exact hd.withHub (hd.synced.next id) (Hub.latest_next _ _) (Hub.closed_next _ _)
  | drop id => exact hd.withHub (hd.synced.drop id) rfl rfl
  | sample =>
    obtain ⟨instruments, _, heq⟩ := after_sample d
    rw [heq]
    exact hd.withInstruments _
  | receive content => exact hd.receive content

theorem Coherent.run {d : Dynamic} (hd : d.Coherent) (ms : List Move) : (d.run ms).Coherent := by
  induction ms generalizing d with
  | nil => exact hd
  | cons m ms ih => exact ih (hd.after m)

theorem run_append (d : Dynamic) (ms ms' : List Move) :
    d.run (ms ++ ms') = (d.run ms).run ms' := List.foldl_append

/-! ### What a coherent registry shows -/

theorem Coherent.isEmpty_iff {d : Dynamic} (hd : d.Coherent) :
    d.topology.isEmpty = true ↔ d.version = none := by
  cases hv : d.value with
  | none =>
    rw [hd.unstored hv]
    simp [version, hv, Keyed.empty, Keyed.isEmpty]
  | some v =>
    have hne := Value.isEmpty_of_topology (hd.stored v hv)
    simp [version, hv, hne]

/-- Closing is for ever. -/
theorem closed_run {d : Dynamic} (hd : d.Coherent) (hc : d.closed = true) (ms : List Move) :
    (d.run ms).closed = true := by
  induction ms generalizing d with
  | nil => exact hc
  | cons m ms ih =>
    refine ih (hd.after m) ?_
    cases m with
    | watch =>
      rcases after_watch_cases d with heq | ⟨_, _, _, heq⟩ <;> rw [heq] <;> exact hc
    | close e =>
      rcases after_close_cases hd e with ⟨_, heq⟩ | ⟨hopen, _⟩
      · rw [heq]
        exact hc
      · rw [hc] at hopen
        cases hopen
    | withdraw _ | next _ | drop _ => exact hc
    | sample =>
      obtain ⟨_, _, heq⟩ := after_sample d
      rw [heq]
      exact hc
    | receive content =>
      have heq : d.after (.receive content) = (d.receive content).1 := rfl
      rcases receive_cases hd content with ⟨_, _, _, _, _, h⟩ | ⟨_, _, h⟩ | ⟨_, h⟩ <;>
        rw [heq, h] <;> exact hc

/-! ### What moves take in and answer -/

def Move.isEnd : Move → Bool
  | .close _ | .withdraw _ | .drop _ => true
  | _ => false

def Move.content? : Move → Option (Option Value)
  | .receive content => some content
  | _ => none

def answer (id : Nat) (d : Dynamic) : Move → Option (Delivery Topology)
  | .next i => if i = id then some (d.hub.next id).2 else none
  | _ => none

theorem Move.content?_eq_some {m : Move} {content : Option Value} (h : m.content? = some content) :
    m = .receive content := by
  cases m with
  | receive content' => rw [Option.some.inj h]
  | watch | close _ | withdraw _ | next _ | drop _ | sample => cases h

theorem answer_eq_some {id : Nat} {d : Dynamic} {m : Move} {x : Delivery Topology}
    (h : d.answer id m = some x) : m = .next id ∧ x = (d.hub.next id).2 := by
  cases m with
  | next i =>
    rw [answer] at h
    split at h
    next hi => exact ⟨by rw [hi], (Option.some.inj h).symm⟩
    next => cases h
  | watch | close _ | withdraw _ | drop _ | sample | receive _ => cases h

theorem contents_of_isEnd {ms : List Move} (h : ∀ m ∈ ms, m.isEnd = true) :
    ms.filterMap Move.content? = [] := by
  rw [List.filterMap_eq_nil_iff]
  intro m hm
  have hend := h m hm
  cases m <;> simp_all [Move.content?, Move.isEnd]

end Dynamic

end NamespaceTopology
