import NamespaceTopology.Proofs.Node.Applications

set_option autoImplicit false

/-!
The gauge that shows the version of a registry. Only the sampler sets it, when a sample is due and as long
as the registry is open and has a value, and it sets it to the version that is served at that moment. So
the gauge may lag behind, but it never goes back and never runs ahead.
-/
namespace NamespaceTopology

namespace Dynamic

/-! ### What a registry samples -/

/-- The version that a sample would report: that of the value of a registry that is open. -/
def sampled? (d : Dynamic) : Option Int64 := if d.closed then none else d.version

theorem version_sample (d : Dynamic) : d.sample.instruments.version =
    (d.sampled?.map fun v => Binary64.roundInt v.toInt).getD d.instruments.version := by
  unfold sample sampled?
  cases d.version with
  | none => simp
  | some v => cases d.closed <;> rfl

theorem version_close {d d' : Dynamic} {e e' : Exposition} {notices : List Notice}
    (h : d.close e = .ok (d', e', notices)) : d'.instruments.version = d.instruments.version := by
  unfold close at h
  split at h
  · cases h
  · obtain ⟨rfl, _⟩ := Prod.mk.inj (Except.ok.inj h)
    rfl

/-- Nothing that a registry does sets its gauge, but for a sample. -/
theorem version_after {d : Dynamic} (hd : d.Coherent) {m : Move} (hm : m ≠ .sample) :
    (d.after m).instruments.version = d.instruments.version := by
  cases m with
  | watch => rcases after_watch_cases d with heq | ⟨_, _, _, heq⟩ <;> rw [heq]
  | close e =>
    cases hc : d.close e with
    | error x => simp only [after, hc]
    | ok p => simpa only [after, hc] using version_close hc
  | withdraw _ | next _ | drop _ => rfl
  | sample => exact absurd rfl hm
  | receive content =>
    have heq : d.after (.receive content) = (d.receive content).1 := rfl
    rcases receive_cases hd content with ⟨_, _, _, _, _, h⟩ | ⟨_, _, h⟩ | ⟨_, h⟩ <;> rw [heq, h]
    rfl

theorem version_run {d : Dynamic} (hd : d.Coherent) {ms : List Move} (hms : .sample ∉ ms) :
    (d.run ms).instruments.version = d.instruments.version := by
  induction ms generalizing d with
  | nil => rfl
  | cons m ms ih =>
    rw [List.mem_cons, not_or] at hms
    exact (ih (hd.after m) hms.2).trans (version_after hd (Ne.symm hms.1))

end Dynamic

namespace Node

open NamespaceTopology.Dynamic (Move)

/-! ### The sampler among all that happens -/

/-- The sampler of a registry takes a turn when a sample is due, whether or not the registry is closed. -/
def ticks (r : Nat) (n : Node) : Event → Bool
  | .turn (.samples s) => s = r && (n.followers[r]?).any fun f => f.nextSample.getD n.nanos ≤ n.nanos
  | _ => false

def sampled? (r : Nat) (n : Node) (e : Event) : Option Int64 :=
  if n.ticks r e then (n.registryAt r).bind Dynamic.sampled? else none

def sampledAlong (r : Nat) : Node → List Event → List Int64
  | _, [] => []
  | n, e :: es => (n.sampled? r e).toList ++ sampledAlong r (n.occur e) es

theorem registryAt_of_ticks {r : Nat} {n : Node} {e : Event} (h : n.ticks r e = true) :
    (n.occur e).registryAt r = (n.registryAt r).map Dynamic.sample := by
  cases e with
  | turn t =>
    cases t with
    | samples s =>
      simp only [ticks, Bool.and_eq_true, decide_eq_true_eq, Option.any_eq_true] at h
      obtain ⟨rfl, f, hf, hdue⟩ := h
      have hd := registryAt_of_follower hf
      change (n.stepSamples s).registryAt s = _
      have hstep := sample_step s n
      generalize n.stepSamples s = m at hstep ⊢
      cases hstep with
      | gone hnone =>
        rw [hnone] at hf
        cases hf
      | ends hf' hclosed =>
        obtain rfl := Option.some.inj (hf.symm.trans hf')
        have hsame : f.registry.sample = f.registry := by
          unfold Dynamic.sample
          cases f.registry.version <;> simp [hclosed]
        rw [registryAt_endTask, registryAt_modifyFollower_of_eq, hd, Option.map_some, hsame]
        exact fun _ => rfl
      | samples _ _ _ =>
        rw [registryAt_modifyFollower, if_pos rfl, hf, hd]
        rfl
      | waits hf' _ hlate =>
        obtain rfl := Option.some.inj (hf.symm.trans hf')
        omega
    | updates _ | attempt _ | consumer _ => cases h
  | _ => cases h

theorem registryAt_of_not_due {r s : Nat} {n : Node} (h : n.ticks r (.turn (.samples s)) = false) :
    (n.occur (.turn (.samples s))).registryAt r = n.registryAt r := by
  change (n.stepSamples s).registryAt r = n.registryAt r
  have hstep := sample_step s n
  generalize n.stepSamples s = m at hstep ⊢
  cases hstep with
  | gone _ | waits _ _ _ => rfl
  | ends _ _ =>
    rw [registryAt_endTask, registryAt_modifyFollower_of_eq]
    intro x
    rfl
  | samples hf _ hdue =>
    have hother : s ≠ r := by
      rintro rfl
      simp [ticks, hf, hdue] at h
    rw [registryAt_modifyFollower, if_neg hother]

def Unsampled (r : Nat) (n n' : Node) : Prop := ∃ ms : List Move, .sample ∉ ms ∧
  n'.registryAt r = (n.registryAt r).map fun d => d.run ms

theorem Ends.unsampled {r : Nat} {n n' : Node} (h : Ends r n n') : Unsampled r n n' := by
  obtain ⟨ms, hms, hr⟩ := h
  exact ⟨ms, fun hmem => absurd (hms _ hmem) (by decide), hr⟩

/-- A registry ends something and then, if it is this one, makes a move that is no sample. -/
theorem Ends.unsampled_after {r s : Nat} {n k n' : Node} {m : Move} (hk : Ends r n k) (hm : m ≠ .sample)
    (h : n'.registryAt r = if s = r then (k.registryAt r).map fun d => d.after m else k.registryAt r) :
    Unsampled r n n' := by
  by_cases hs : s = r
  · obtain ⟨ms, hms, hr⟩ := hk.unsampled
    refine ⟨ms ++ [m], by simp [hms, Ne.symm hm], ?_⟩
    rw [h, if_pos hs, hr, Option.map_map]
    simp only [Function.comp_def, Dynamic.run_append]
    rfl
  · exact (hk.trans (.of_eq (h.trans (if_neg hs)))).unsampled

theorem Unsampled.of_next {r : Nat} {n n' : Node} (source : Source) (id : Nat)
    (h : n'.registryAt r = (n.next source id).1.registryAt r) : Unsampled r n n' := by
  rw [registryAt_next] at h
  cases source with
  | dynamic s =>
    simp only [Source.dynamic.injEq] at h
    exact (Ends.of_eq rfl).unsampled_after (by simp) h
  | hub _ | static _ => exact (Ends.of_eq (h.trans (if_neg (by simp)))).unsampled

theorem unsampled_stepConsumer (r c : Nat) (n : Node) : Unsampled r n (n.stepConsumer c) := by
  have hstep := consume_step c n
  generalize n.stepConsumer c = m at hstep ⊢
  cases hstep with
  | gone _ => exact (Ends.of_eq rfl).unsampled
  | @waits x id _ _ _ | @takes x id _ _ _ _ | @stops x id _ _ _ _ => exact .of_next x.source id rfl

/-- What is no tick of its sampler makes a registry do other things than to sample. -/
theorem unsampled_of_not_ticks {r : Nat} {n : Node} {e : Event} {d : Dynamic}
    (hd : n.registryAt r = some d) (he : n.ticks r e = false) : Unsampled r n (n.occur e) := by
  have hcore (h : (n.occur e).core = n.core) : Unsampled r n (n.occur e) := (Ends.of_core h).unsampled
  cases e with
  | turn t =>
    cases t with
    | samples s => exact (Ends.of_eq (registryAt_of_not_due he)).unsampled
    | updates s =>
      rcases stepUpdates_cases s n with ⟨k, content, _, hk, hstep⟩ | ⟨_, hk⟩
      · have hwake := registryAt_wake s r content k
        rw [← hstep] at hwake
        exact (hk r).unsampled_after (by simp) hwake
      · exact ((hk r).trans (.of_followers rfl)).unsampled
    | attempt a =>
      have hends : Ends r n (n.stepAttempt a) := (starts_stepAttempt a n).ends hd
      exact (hends.trans (.of_followers rfl)).unsampled
    | consumer c => exact unsampled_stepConsumer r c n
  | next source id => exact .of_next source id rfl
  | wake s content =>
    exact (Ends.of_eq rfl).unsampled_after (by simp) (registryAt_wake s r content n)
  | watch source =>
    cases source with
    | dynamic s => exact (Ends.of_eq rfl).unsampled_after (by simp) (registryAt_watch s r n)
    | hub _ | static _ => exact hcore (core_watch (by simp) n)
  | close source => exact (ends_close source r n).unsampled
  | withdrawDynamic s => exact (ends_withdrawDynamic s r n).unsampled
  | unsubscribe source id => exact (ends_unsubscribe source id r n).unsampled
  | release h => exact (ends_release h r n).unsampled
  | streamEnd s => exact ((ends_ensureClosed s r n).trans (.of_eq (registryAt_endLoop s r _))).unsampled
  | store _ | addInitializer _ | call _ | spawnInit _ | cancel _ =>
    exact (Ends.of_followers rfl).unsampled
  | feed _ | closeOnRead _ | addMeter _ _ | count _ _ | report _ _ | withdraw _ | register _ _
  | unregister _ _ | addHub _ | publish _ _ | addStatic _ | consume _ _ _ | look _ | join _
  | readNotices | refresh | pass _ => exact hcore (core_occur rfl n)

/-- A tick sets the gauge to the version that is served, if there is one and the registry is open, and
nothing else sets it. -/
theorem version_occur {r : Nat} {n : Node} {d : Dynamic} (hd : n.registryAt r = some d)
    (hco : d.Coherent) (e : Event) : ∃ d', (n.occur e).registryAt r = some d' ∧
      d'.instruments.version =
        ((n.sampled? r e).map fun v => Binary64.roundInt v.toInt).getD d.instruments.version := by
  unfold sampled?
  cases he : n.ticks r e with
  | true =>
    refine ⟨d.sample, ?_, ?_⟩
    · rw [registryAt_of_ticks he, hd]
      rfl
    · rw [if_pos rfl, hd]
      exact d.version_sample
  | false =>
    obtain ⟨ms, hms, hr⟩ := unsampled_of_not_ticks hd he
    rw [hd] at hr
    exact ⟨d.run ms, hr, Dynamic.version_run hco hms⟩

/-! ### Samples along a run -/

/-- What is sampled was served at that time, by a registry that was open. -/
theorem exists_served_of_mem {r : Nat} {n : Node} {es : List Event} {v : Int64}
    (h : v ∈ n.sampledAlong r es) : ∃ before after d, es = before ++ after ∧
      (n.run before).registryAt r = some d ∧ d.closed = false ∧ d.version = some v := by
  induction es generalizing n with
  | nil => cases h
  | cons e es ih =>
    rcases List.mem_append.mp h with hfirst | hrest
    · obtain ⟨_, hv⟩ := Option.ite_none_right_eq_some.mp (Option.mem_toList.mp hfirst)
      obtain ⟨d, hd, hv⟩ := Option.bind_eq_some_iff.mp hv
      obtain ⟨hopen, hversion⟩ := Option.ite_none_left_eq_some.mp hv
      exact ⟨[], e :: es, d, rfl, hd, by simpa using hopen, hversion⟩
    · obtain ⟨before, after, d, rfl, hd, hserved⟩ := ih hrest
      exact ⟨e :: before, after, d, rfl, hd, hserved⟩

/-- The version that is served never goes back. -/
theorem le_version_run {r : Nat} {n : Node} {d d' : Dynamic} (hd : n.registryAt r = some d)
    (hco : d.Coherent) {es : List Event} (hd' : (n.run es).registryAt r = some d') {v : Int64}
    (hv : d.version = some v) : ∃ w, d'.version = some w ∧ v ≤ w := by
  obtain ⟨x, hx, rfl⟩ := Option.map_eq_some_iff.mp hv
  obtain ⟨ms, hrun⟩ := exists_registryAt_run hd es
  obtain rfl := Option.some.inj (hd'.symm.trans hrun)
  obtain ⟨y, hy, hle⟩ := Dynamic.exists_value_run hco hx ms
  exact ⟨y.version, congrArg (Option.map Value.version) hy, hle⟩

variable {r : Nat} {n : Node} {d : Dynamic}

theorem le_of_mem_sampledAlong (hn : n.Coherent) (hd : n.registryAt r = some d) {v x : Int64}
    (hv : d.version = some v) {es : List Event} (hx : x ∈ n.sampledAlong r es) : v ≤ x := by
  obtain ⟨before, after, k, rfl, hk, _, hserved⟩ := exists_served_of_mem hx
  obtain ⟨w, hw, hle⟩ := le_version_run hd (hn r d hd) hk hv
  obtain rfl := Option.some.inj (hserved.symm.trans hw)
  exact hle

theorem sampledAlong_pairwise (hn : n.Coherent) (es : List Event) :
    (n.sampledAlong r es).Pairwise (· ≤ ·) := by
  induction es generalizing n with
  | nil => exact .nil
  | cons e es ih =>
    refine List.pairwise_append.mpr ⟨?_, ih (hn.occur e), ?_⟩
    · cases n.sampled? r e with
      | none => exact .nil
      | some v => exact List.pairwise_singleton _ v
    · -- What is sampled by the first event is served from then on.
      intro v hv x hx
      obtain ⟨_, hbind⟩ := Option.ite_none_right_eq_some.mp (Option.mem_toList.mp hv)
      obtain ⟨d, hd, hsampled⟩ := Option.bind_eq_some_iff.mp hbind
      obtain ⟨_, hversion⟩ := Option.ite_none_left_eq_some.mp hsampled
      have hmem : x ∈ n.sampledAlong r (e :: es) := List.mem_append_right _ hx
      exact le_of_mem_sampledAlong hn hd hversion hmem

theorem version_run_eq (hn : n.Coherent) (hd : n.registryAt r = some d) (es : List Event) :
    ∃ d', (n.run es).registryAt r = some d' ∧ d'.instruments.version =
      ((n.sampledAlong r es).getLast?.map fun v => Binary64.roundInt v.toInt).getD
        d.instruments.version := by
  induction es generalizing n d with
  | nil => exact ⟨d, hd, rfl⟩
  | cons e es ih =>
    obtain ⟨k, hk, hversion⟩ := version_occur hd (hn r d hd) e
    obtain ⟨d', hd', hlast⟩ := ih (hn.occur e) hk
    refine ⟨d', hd', hlast.trans ?_⟩
    rw [sampledAlong, List.getLast?_append, hversion]
    cases (sampledAlong r (n.occur e) es).getLast? with
    | some v => rfl
    | none => cases n.sampled? r e <;> rfl

/-- A tick of the sampler sets the gauge of an open registry to the version that is served, if there is
one. Nothing else sets it, not even a tick that was due when the registry was closed. So the sampled
versions never go back, each of them is the version that is served from then on or an older one, and the
gauge shows the last of them. -/
theorem gauge_lags_behind (es : List Event) (r : Nat) (d : Dynamic)
    (hd : (start.run es).registryAt r = some d) :
    let n := start.run es
    (∀ e v, n.ticks r e = true → d.closed = false → d.version = some v →
      n.sampled? r e = some v ∧ ∃ d', (n.occur e).registryAt r = some d' ∧
        d'.instruments.version = Binary64.roundInt v.toInt) ∧
    (∀ e, (n.ticks r e = false ∨ d.closed = true ∨ d.version = none) →
      n.sampled? r e = none ∧ ∃ d', (n.occur e).registryAt r = some d' ∧
        d'.instruments.version = d.instruments.version) ∧
    (∀ es' d', (n.run es').registryAt r = some d' →
      (n.sampledAlong r es').Pairwise (· ≤ ·) ∧
      (∀ v ∈ n.sampledAlong r es', ∃ w, d'.version = some w ∧ v ≤ w) ∧
      d'.instruments.version = ((n.sampledAlong r es').getLast?.map fun v =>
        Binary64.roundInt v.toInt).getD d.instruments.version ∧
      (d.closed = true ∨ d'.version = none → n.sampledAlong r es' = [])) := by
  intro n
  have hn : n.Coherent := coherent_start.run es
  have hco : d.Coherent := hn r d hd
  refine ⟨?_, ?_, ?_⟩
  · intro e v he hopen hv
    have hsampled : n.sampled? r e = some v := by simp [sampled?, he, n, hd, Dynamic.sampled?, hopen, hv]
    obtain ⟨d', hd', hversion⟩ := version_occur hd hco e
    rw [hsampled] at hversion
    exact ⟨hsampled, d', hd', hversion⟩
  · intro e he
    have hsampled : n.sampled? r e = none := by
      rcases he with he | hclosed | hnone
      · simp [sampled?, he]
      · simp [sampled?, n, hd, Dynamic.sampled?, hclosed]
      · simp [sampled?, n, hd, Dynamic.sampled?, hnone]
    obtain ⟨d', hd', hversion⟩ := version_occur hd hco e
    rw [hsampled] at hversion
    exact ⟨hsampled, d', hd', hversion⟩
  · intro es' d' hd'
    have hserved : ∀ v ∈ n.sampledAlong r es',
        d.closed = false ∧ ∃ w, d'.version = some w ∧ v ≤ w := by
      intro v hv
      obtain ⟨before, after, k, rfl, hk, hopen, hversion⟩ := exists_served_of_mem hv
      refine ⟨open_of_run hd hco hk hopen, ?_⟩
      rw [run_append] at hd'
      exact le_version_run hk (hn.run before r k hk) hd' hversion
    refine ⟨sampledAlong_pairwise hn es', fun v hv => (hserved v hv).2, ?_, ?_⟩
    · obtain ⟨k, hk, hlast⟩ := version_run_eq hn hd es'
      obtain rfl := Option.some.inj (hd'.symm.trans hk)
      exact hlast
    · intro h
      refine List.eq_nil_iff_forall_not_mem.mpr fun v hv => ?_
      obtain ⟨hopen, w, hw, _⟩ := hserved v hv
      rcases h with hclosed | hnone
      · rw [hclosed] at hopen
        cases hopen
      · rw [hnone] at hw
        cases hw

/-- The second sample is half a minute late, so the third is due half a minute later as well: the version
of the turn before that is never shown. The registry is closed when the fourth sample is due. -/
def smallSamples : List Event :=
  [.turn (.samples 0), .store (.set "namespaces" (smallDocument 98)), .turn (.updates 0),
    .turn (.samples 0), .pass 90000, .turn (.samples 0),
    .store (.set "namespaces" (smallDocument 97)), .turn (.updates 0), .pass 30000,
    .turn (.samples 0), .store (.set "namespaces" (smallDocument 98)), .turn (.updates 0),
    .pass 30000, .turn (.samples 0), .pass 60000, .close (.dynamic 0), .turn (.samples 0)]

theorem gauge_lags_behind_small : ∃ d d', (start.run smallRun).registryAt 0 = some d ∧
    ((start.run smallRun).run smallSamples).registryAt 0 = some d' ∧
    (start.run smallRun).sampledAlong 0 smallSamples = [1, 2, 4] ∧
    d'.instruments.version = 4 := by
  have hregistry : ((start.run smallRun).registryAt 0).isSome = true := by decide +kernel
  have hregistry' : (((start.run smallRun).run smallSamples).registryAt 0).isSome = true := by
    decide +kernel
  have hsampled : (start.run smallRun).sampledAlong 0 smallSamples = [1, 2, 4] := by decide +kernel
  have hround : Binary64.roundInt (4 : Int64).toInt = 4 := by decide +kernel
  obtain ⟨d, hd⟩ := Option.isSome_iff_exists.mp hregistry
  obtain ⟨d', hd'⟩ := Option.isSome_iff_exists.mp hregistry'
  obtain ⟨_, _, halong⟩ := gauge_lags_behind smallRun 0 d hd
  obtain ⟨_, _, hlast, _⟩ := halong smallSamples d' hd'
  rw [hsampled] at hlast
  exact ⟨d, d', hd, hd', hsampled, hlast.trans hround⟩

end Node

end NamespaceTopology
