import Mathlib.Data.List.Induction
import NamespaceTopology.Proofs.Node.Contents
import NamespaceTopology.Proofs.Node.Initialization
import NamespaceTopology.Proofs.Store.Wakes

set_option autoImplicit false

/-!
How the wait for a first value ends. A call that may not wait reads its key at once. Any other waits while
the key is absent and nothing happens to it: a signal wakes it, and what was written last then decides, or
its deadline comes first.
-/
namespace NamespaceTopology.Node

variable {a i w deadline : Nat} {o : DynamicOptions} {n m : Node}

/-! ### How a call ends -/

/-- What the content that a call reads makes of it. Only a call that may not wait builds without a value. -/
def verdict (o : DynamicOptions) : Option Value → Except Error (Option (Value × Topology))
  | none => if o.initTimeout.nanos = 0 then .ok none else .error (.namespaces .unreadable)
  | some v => match v.topology with
    | .ok t => .ok (some (v, t))
    | .error cause => .error (.namespaces cause)

def EndsWith (a : Nat) (outcome : Except Error (Option (Value × Topology))) (n : Node) : Prop :=
  match outcome with
  | .error e => n.result? a = some (.error e)
  | .ok first => ∃ (r : Nat) (f : Follower), n.result? a = some (.ok r) ∧ n.followers[r]? = some f ∧
      f.registry.value = first.map Prod.fst ∧
      f.registry.topology = (first.map Prod.snd).getD Keyed.empty

def AcceptsMetrics (o : DynamicOptions) (n : Node) : Prop :=
  ∃ instruments, (n.createInstruments o.exposition o.scope).2 = .ok instruments

theorem result?_of_stageAt {result : Except Error Nat} (h : n.stageAt a = some (.finished result)) :
    n.result? a = some result := by
  have hstage : (n.attempts[a]?).map Attempt.stage = some (.finished result) := h
  rw [result?, hstage]

theorem EndsWith.congr {outcome : Except Error (Option (Value × Topology))} (h : n.EndsWith a outcome)
    (hattempts : m.attempts = n.attempts) (hfollowers : m.followers = n.followers) :
    m.EndsWith a outcome := by
  unfold EndsWith result? at h ⊢
  rw [hattempts, hfollowers]
  exact h

theorem EndsWith.exists_stage {outcome : Except Error (Option (Value × Topology))}
    (h : n.EndsWith a outcome) : ∃ (x : Attempt) (result : Except Error Nat),
      n.attempts[a]? = some x ∧ x.stage = .finished result := by
  cases outcome with
  | error e =>
    obtain ⟨x, hx, hstage⟩ := result?_eq_some h
    exact ⟨x, _, hx, hstage⟩
  | ok first =>
    obtain ⟨r, _, hresult, _⟩ := h
    obtain ⟨x, hx, hstage⟩ := result?_eq_some hresult
    exact ⟨x, _, hx, hstage⟩

theorem exists_ok {α β : Type} {result : Except α β} (h : result.toOption.isSome = true) :
    ∃ b, result = .ok b := by
  cases result with
  | ok b => exact ⟨b, rfl⟩
  | error _ => cases h

theorem AcceptsMetrics.congr (h : n.AcceptsMetrics o) (hexpositions : m.expositions = n.expositions)
    (hnext : m.nextOwner = n.nextOwner) : m.AcceptsMetrics o := by
  obtain ⟨instruments, hmade⟩ := h
  refine ⟨instruments, ?_⟩
  rw [← hmade]
  simp only [createInstruments, exposition, hexpositions, hnext]

theorem endsWith_fail (ha : a < n.attempts.length) (i : Nat) (remote : Remote) (e : Error) :
    (n.fail a i remote e).EndsWith a (.error e) :=
  result?_of_stageAt (stageAt_of_lines (lines_fail a i remote e n) ha)

theorem endsWith_build (ha : a < n.attempts.length) (hmetrics : n.AcceptsMetrics o) (i : Nat)
    (remote : Remote) (first : Option (Value × Topology)) :
    (n.build a i o remote first).EndsWith a (.ok first) := by
  obtain ⟨instruments, hmade⟩ := hmetrics
  have hstep := build_step a i o remote first n
  generalize n.build a i o remote first = built at hstep ⊢
  cases hstep with
  | fails hfails =>
    rw [hfails] at hmade
    cases hmade
  | @founds k _ f hk hf =>
    have hattempts : k.attempts = n.attempts := congrArg (fun p => p.1.attempts) hk.symm
    refine ⟨k.followers.length, f, ?_, List.getElem?_concat_length, by rw [hf]; rfl, by rw [hf]; rfl⟩
    refine result?_of_stageAt ?_
    simp [stageAt, endAttempt, endTask, modifyInitializer, modifyAttempt, addTask, hattempts, ha]

theorem endsWith_conclude (ha : a < n.attempts.length) (hmetrics : n.AcceptsMetrics o) (i w : Nat) :
    (n.conclude a i o (.watch w)).EndsWith a (verdict o (n.store.contentOf w)) := by
  have hread : n.readRemote (.watch w) = (n, n.store.contentOf w) := rfl
  unfold conclude
  rw [hread]
  cases n.store.contentOf w with
  | none =>
    simp only [verdict]
    split
    · exact endsWith_build ha hmetrics i (.watch w) none
    · exact endsWith_fail ha i (.watch w) _
  | some v =>
    simp only [verdict]
    cases v.topology with
    | ok t => exact endsWith_build ha hmetrics i (.watch w) _
    | error cause => exact endsWith_fail ha i (.watch w) _

/-! ### One poll -/

/-- A watch that is stirred ends the wait, also when the deadline has come. -/
theorem endsWith_await {content : Option Value} (hoffers : n.store.Offers w content true)
    (ha : a < n.attempts.length) (hmetrics : n.AcceptsMetrics o) (i deadline : Nat) :
    (n.await a i o (.watch w) deadline).EndsWith a (verdict o content) := by
  have hsignal : (n.takeSignal (.watch w)).2 ≠ .waiting := fun hwaiting =>
    Bool.noConfusion (hoffers.peek.mp (hoffers.look.symm.trans hwaiting))
  have hstore : (n.takeSignal (.watch w)).1.store.contentOf w = content := hoffers.content
  have hmetrics : (n.takeSignal (.watch w)).1.AcceptsMetrics o := hmetrics.congr rfl rfl
  have hstep := await_step a i o (.watch w) deadline n
  generalize n.await a i o (.watch w) deadline = m at hstep ⊢
  cases hstep with
  | changed _ =>
    have hchanged := endsWith_conclude (n := (n.takeSignal (.watch w)).1) ha hmetrics i w
    exact hstore ▸ hchanged
  | ended _ =>
    have htold := endsWith_conclude (n := (n.takeSignal (.watch w)).1.tell
      [.warning "namespace registry watch ended during the initial wait"])
      ha (hmetrics.congr rfl rfl) i w
    exact hstore ▸ htold
  | late hs _ | waits hs _ => exact absurd hs hsignal

theorem takeSignal_of_waiting {content : Option Value} (hoffers : n.store.Offers w content false) :
    n.takeSignal (.watch w) = (n, .waiting) := by
  have hpeek : n.store.peek w = .waiting := hoffers.peek.mpr rfl
  have hlook : n.store.look w = (n.store, .waiting) :=
    Prod.ext (hoffers.store hpeek) (hoffers.look.trans hpeek)
  rw [takeSignal, hlook]

theorem endsWith_await_late {content : Option Value} (hoffers : n.store.Offers w content false)
    (ha : a < n.attempts.length) (hlate : deadline ≤ n.nanos) (i : Nat) :
    (n.await a i o (.watch w) deadline).EndsWith a (.error (.initTimeout o.initTimeout)) := by
  simp only [await, takeSignal_of_waiting hoffers, if_pos hlate]
  exact endsWith_fail ha i (.watch w) _

theorem await_early {content : Option Value} (hoffers : n.store.Offers w content false)
    (hearly : ¬ deadline ≤ n.nanos) (i : Nat) : n.await a i o (.watch w) deadline =
      n.modifyAttempt a fun x => { x with stage := .waiting (.watch w) deadline } := by
  simp only [await, takeSignal_of_waiting hoffers, if_neg hearly]

structure Awaits (a w deadline : Nat) (o : DynamicOptions) (n : Node) : Prop where
  progress : n.lines.progress? a = some ⟨o, .waiting (.watch w) deadline, false⟩
  metrics : n.AcceptsMetrics o

/-- A call has come to its end, and nobody has given it up. -/
structure Concluded (a : Nat) (o : DynamicOptions) (outcome : Except Error (Option (Value × Topology)))
    (n : Node) : Prop where
  outcome : n.EndsWith a outcome
  progress : ∃ stage : Stage, stage.hasBegun = true ∧ n.lines.progress? a = some ⟨o, stage, false⟩

theorem nanos_of_world (h : m.world = n.world) : m.nanos = n.nanos :=
  congrArg (· * 1000000) (congrArg World.now h)

theorem followers_occur_attempt (a : Nat) (n : Node) :
    (n.occur (.turn (.attempt a))).followers = (n.stepAttempt a).followers :=
  congrArg World.followers (world_occur_attempt a n)

theorem Awaits.stepAttempt (h : n.Awaits a w deadline o) :
    ∃ i, n.stepAttempt a = n.await a i o (.watch w) deadline := by
  obtain ⟨i, hi⟩ := stepAttempt_of_progress? h.progress rfl
  exact ⟨i, hi⟩

theorem Awaits.lt (h : n.Awaits a w deadline o) : a < n.attempts.length :=
  lt_attempts_of_progress? h.progress

theorem Awaits.concluded {outcome : Except Error (Option (Value × Topology))}
    (h : n.Awaits a w deadline o)
    (hends : ∀ i, (n.await a i o (.watch w) deadline).EndsWith a outcome) :
    (n.occur (.turn (.attempt a))).Concluded a o outcome := by
  obtain ⟨i, hi⟩ := h.stepAttempt
  constructor
  · refine (hends i).congr ?_ ?_
    · rw [attempts_occur_attempt, hi]
    · rw [followers_occur_attempt, hi]
  · rw [lines_occur_attempt, hi]
    exact (built_await a i o (.watch w) deadline n).progress h.progress

/-- A poll that comes before anything has happened changes nothing. -/
theorem Awaits.waits {content : Option Value} (h : n.Awaits a w deadline o)
    (hoffers : n.store.Offers w content false) (hearly : ¬ deadline ≤ n.nanos) :
    (n.occur (.turn (.attempt a))).Awaits a w deadline o ∧
      (n.occur (.turn (.attempt a))).store = n.store ∧ (n.occur (.turn (.attempt a))).now = n.now := by
  obtain ⟨i, hi⟩ := h.stepAttempt
  rw [await_early hoffers hearly] at hi
  have hworld : (n.occur (.turn (.attempt a))).world = n.world := by
    rw [world_occur_attempt, hi]
    rfl
  refine ⟨⟨?_, ?_⟩, congrArg World.store hworld, congrArg World.now hworld⟩
  · rw [lines_occur_attempt, hi]
    exact Lines.progress?_mark h.progress (.waiting (.watch w) deadline)
  · exact h.metrics.congr (congrArg World.expositions hworld) (congrArg World.nextOwner hworld)

theorem Awaits.result?_eq_none (h : n.Awaits a w deadline o) : n.result? a = none := by
  have hstage : (n.attempts[a]?).map Attempt.stage = some (.waiting (.watch w) deadline) :=
    stageAt_of_progress? h.progress
  rw [result?, hstage]

theorem Awaits.isReady_iff {content : Option Value} {stirred : Bool} (h : n.Awaits a w deadline o)
    (hoffers : n.store.Offers w content stirred) :
    n.isReady (.attempt a) = true ↔ stirred = true ∨ deadline ≤ n.nanos := by
  obtain ⟨⟨i, stage, cancelled⟩, y, hx, _, hp⟩ := Lines.progress?_eq_some h.progress
  obtain ⟨_, rfl, rfl⟩ := Progress.mk.inj hp
  have hx : n.attempts[a]? = some ⟨i, .waiting (.watch w) deadline, false⟩ := hx
  have hsignal : n.signal (.watch w) ≠ .waiting ↔ stirred = true := by
    rw [← Bool.not_eq_false]
    exact not_congr hoffers.peek
  simp [isReady, hx, ← hsignal]

/-! ### What happens around -/

/-- What may happen around a call that waits: keys are written and closed, time passes and the call is
polled. -/
def Event.isAround (a : Nat) : Event → Bool
  | .store e => e.writes
  | .pass _ | .refresh => true
  | .turn (.attempt b) => b = a
  | _ => false

def writes (es : List Event) : List Store.Event := es.filterMap Event.write?

def Stirred (key : String) (es : List Event) : Prop := ∃ e ∈ writes es, e.stirs key = true

def Ripe (key : String) (deadline : Nat) (n : Node) (es : List Event) : Prop :=
  Stirred key es ∨ deadline ≤ (n.run es).nanos

def Unripe (a : Nat) (key : String) (deadline : Nat) (n : Node) (es : List Event) : Prop :=
  ∀ before after, es = before ++ .turn (.attempt a) :: after → ¬ n.Ripe key deadline before

/-- Time stands still while the call can go on. -/
def Prompt (a : Nat) (n : Node) (es : List Event) : Prop :=
  ∀ before ms after, es = before ++ .pass ms :: after → ∀ j < ms,
    ((n.run before).occur (.pass j)).isReady (.attempt a) = false

theorem around_cases {e : Event} (he : e.isAround a = true) (n : Node) : e = .turn (.attempt a) ∨
    ((n.occur e).lines = n.lines ∧ (n.occur e).followers = n.followers ∧
      (n.occur e).expositions = n.expositions ∧ (n.occur e).nextOwner = n.nextOwner ∧
      (n.occur e).store = n.store.run e.write?.toList) := by
  cases e with
  | store e =>
    have hwrites : e.writes = true := he
    refine Or.inr ⟨rfl, rfl, rfl, rfl, ?_⟩
    simp [occur, Event.write?, hwrites, Store.run]
  | pass _ | refresh => exact Or.inr ⟨rfl, rfl, rfl, rfl, rfl⟩
  | turn t =>
    cases t with
    | attempt b => exact Or.inl (congrArg (Event.turn ∘ Task.attempt) (of_decide_eq_true he))
    | _ => cases he
  | _ => cases he

theorem Concluded.occur {outcome : Except Error (Option (Value × Topology))}
    (h : n.Concluded a o outcome) {e : Event} (he : e.isAround a = true) : (n.occur e).Concluded a o outcome := by
  rcases around_cases he n with rfl | ⟨hlines, hfollowers, _⟩
  · obtain ⟨stage, hbegun, hp⟩ := h.progress
    obtain ⟨i, hi⟩ := stepAttempt_of_progress? hp hbegun
    obtain ⟨x, result, hx, hstage⟩ := h.outcome.exists_stage
    have hfinished : some stage = some (.finished result) := by
      rw [← stageAt_of_progress? hp, stageAt, hx, ← hstage]
      rfl
    rw [Option.some.inj hfinished] at hi hp
    have hstep : n.stepAttempt a = n.endTask (.attempt a) := hi
    refine ⟨h.outcome.congr ?_ ?_, .finished result, rfl, ?_⟩
    · rw [attempts_occur_attempt, hstep]
      rfl
    · rw [followers_occur_attempt, hstep]
      rfl
    · rw [lines_occur_attempt, hstep]
      exact hp
  · refine ⟨h.outcome.congr (congrArg Lines.attempts hlines) hfollowers, ?_⟩
    rw [hlines]
    exact h.progress

theorem Concluded.run {outcome : Except Error (Option (Value × Topology))} (h : n.Concluded a o outcome)
    {es : List Event} (hes : ∀ e ∈ es, e.isAround a = true) : (n.run es).Concluded a o outcome := by
  induction es generalizing n with
  | nil => exact h
  | cons e es ih =>
    obtain ⟨he, hes⟩ := List.forall_mem_cons.mp hes
    exact ih (h.occur he) hes

/-! ### The wait -/

section Wait

variable {s : Store} {es : List Event}

/-- What a call does that has started to wait on a watch of an absent key. -/
structure Begins (a deadline : Nat) (o : DynamicOptions) (s : Store) (n : Node) : Prop where
  awaits : n.Awaits a (s.watch o.key).2 deadline o
  early : n.nanos < deadline
  store : n.store = (s.watch o.key).1
  sound : s.Sound
  numbered : s.Numbered
  absent : s.get o.key = none

theorem Unripe.of_append {key : String} {es' : List Event} (h : n.Unripe a key deadline (es ++ es')) :
    n.Unripe a key deadline es := by
  rintro before after rfl
  exact h before (after ++ es') (by simp)

theorem writes_concat (es : List Event) (e : Event) :
    writes (es ++ [e]) = writes es ++ e.write?.toList := by
  rw [writes, List.filterMap_append, writes, List.filterMap_cons]
  cases e.write? <;> rfl

theorem writes_of_mem {e : Store.Event} (h : e ∈ writes es) : e.writes = true := by
  obtain ⟨k, _, hk⟩ := List.mem_filterMap.mp h
  cases k with
  | store e' =>
    obtain ⟨hwrites, hsame⟩ := Option.ite_none_right_eq_some.mp hk
    exact Option.some.inj hsame ▸ hwrites
  | _ => cases hk

theorem Begins.offers (h : n.Begins a deadline o s) (hstore : m.store = n.store.run (writes es)) :
    m.store.Offers (s.watch o.key).2 (Store.lastWritten o.key none s (writes es))
      ((writes es).any (Store.Event.stirs o.key)) := by
  have hoffers := Store.offers_of_writes h.sound h.numbered o.key
    fun e (he : e ∈ writes es) => writes_of_mem he
  rw [h.absent] at hoffers
  rw [hstore, h.store]
  exact hoffers

theorem stirred_iff {key : String} :
    (writes es).any (Store.Event.stirs key) = true ↔ Stirred key es :=
  List.any_eq_true

theorem Begins.offers_quiet (h : n.Begins a deadline o s) (hstore : m.store = n.store.run (writes es))
    (hquiet : ¬ Stirred o.key es) : m.store.Offers (s.watch o.key).2
      (Store.lastWritten o.key none s (writes es)) false := by
  have hoffers := h.offers hstore
  rwa [Bool.eq_false_iff.mpr fun hstirred => hquiet (stirred_iff.mp hstirred)] at hoffers

/-- As long as no poll ends the wait, the call waits and the store goes its own way. -/
theorem Begins.run (h : n.Begins a deadline o s) (hes : ∀ e ∈ es, e.isAround a = true)
    (hunripe : n.Unripe a o.key deadline es) : (n.run es).Awaits a (s.watch o.key).2 deadline o ∧
      (n.run es).store = n.store.run (writes es) := by
  -- From the end, for whether a poll ends the wait depends on all that came before it.
  induction es using List.reverseRecOn with
  | nil => exact ⟨h.awaits, rfl⟩
  | append_singleton es e ih =>
    obtain ⟨hawaits, hstore⟩ := ih (fun k hk => hes k (List.mem_append_left _ hk)) hunripe.of_append
    rw [run_append]
    change ((n.run es).occur e).Awaits _ _ _ _ ∧ ((n.run es).occur e).store = _
    rcases around_cases (hes e (by simp)) (n.run es) with rfl |
      ⟨hlines, _, hexpositions, hnext, hwritten⟩
    · have hripe : ¬ n.Ripe o.key deadline es := hunripe es [] rfl
      obtain ⟨hquiet, hearly⟩ := not_or.mp hripe
      obtain ⟨hwaits, hsame, _⟩ := hawaits.waits (h.offers_quiet hstore hquiet) hearly
      refine ⟨hwaits, hsame.trans (hstore.trans ?_)⟩
      rw [writes_concat]
      simp [Event.write?]
    · refine ⟨⟨by rw [hlines]; exact hawaits.progress, hawaits.metrics.congr hexpositions hnext⟩, ?_⟩
      rw [hwritten, hstore, ← Store.run_append, writes_concat]

/-- How a call ends with a poll holds after whatever happens next. -/
theorem Begins.concluded {outcome : Except Error (Option (Value × Topology))} {before after : List Event}
    (h : n.Begins a deadline o s) (hes : ∀ e ∈ before ++ .turn (.attempt a) :: after, e.isAround a = true)
    (hunripe : n.Unripe a o.key deadline before)
    (hends : ∀ i, ((n.run before).await a i o (.watch (s.watch o.key).2) deadline).EndsWith a outcome) :
    (n.run (before ++ .turn (.attempt a) :: after)).Concluded a o outcome := by
  obtain ⟨hawaits, _⟩ := h.run (fun e he => hes e (by simp [he])) hunripe
  rw [run_append]
  exact (hawaits.concluded hends).run fun e he => hes e (by simp [he])

theorem Begins.concluded_of_stirred {before after : List Event} (h : n.Begins a deadline o s)
    (hes : ∀ e ∈ before ++ .turn (.attempt a) :: after, e.isAround a = true)
    (hunripe : n.Unripe a o.key deadline before) (hstirred : Stirred o.key before) :
    (n.run (before ++ .turn (.attempt a) :: after)).Concluded a o
      (verdict o (Store.lastWritten o.key none s (writes before))) := by
  obtain ⟨hawaits, hstore⟩ := h.run (fun e he => hes e (by simp [he])) hunripe
  have hoffers := h.offers hstore
  rw [stirred_iff.mpr hstirred] at hoffers
  exact h.concluded hes hunripe fun i => endsWith_await hoffers hawaits.lt hawaits.metrics i deadline

theorem Begins.concluded_of_late {before after : List Event} (h : n.Begins a deadline o s)
    (hes : ∀ e ∈ before ++ .turn (.attempt a) :: after, e.isAround a = true)
    (hunripe : n.Unripe a o.key deadline before) (hquiet : ¬ Stirred o.key before)
    (hlate : deadline ≤ (n.run before).nanos) :
    (n.run (before ++ .turn (.attempt a) :: after)).Concluded a o
      (.error (.initTimeout o.initTimeout)) := by
  obtain ⟨hawaits, hstore⟩ := h.run (fun e he => hes e (by simp [he])) hunripe
  exact h.concluded hes hunripe fun i =>
    endsWith_await_late (h.offers_quiet hstore hquiet) hawaits.lt hlate i

theorem Begins.isReady_iff (h : n.Begins a deadline o s) (hes : ∀ e ∈ es, e.isAround a = true)
    (hunripe : n.Unripe a o.key deadline es) :
    (n.run es).isReady (.attempt a) = true ↔ n.Ripe o.key deadline es := by
  obtain ⟨hawaits, hstore⟩ := h.run hes hunripe
  rw [hawaits.isReady_iff (h.offers hstore), stirred_iff, Ripe]

/-- Either no poll ends the wait, or one is the first to do so. -/
theorem unripe_or_exists (a : Nat) (key : String) (deadline : Nat) (n : Node) (es : List Event) :
    n.Unripe a key deadline es ∨ ∃ before after, es = before ++ .turn (.attempt a) :: after ∧
      n.Unripe a key deadline before ∧ n.Ripe key deadline before := by
  induction es using List.reverseRecOn with
  | nil => exact Or.inl fun before after hsplit => by simp at hsplit
  | append_singleton es e ih =>
    rcases ih with hunripe | ⟨before, after, rfl, hfirst⟩
    · by_cases hends : e = .turn (.attempt a) ∧ n.Ripe key deadline es
      · obtain ⟨rfl, hripe⟩ := hends
        exact Or.inr ⟨es, [], rfl, hunripe, hripe⟩
      · refine Or.inl fun before after hsplit hripe => ?_
        rcases List.eq_nil_or_concat after with rfl | ⟨after, last, rfl⟩
        · obtain ⟨rfl, hsame⟩ := List.append_inj' hsplit rfl
          exact hends ⟨(List.cons.inj hsame).1, hripe⟩
        · have hsplit : es ++ [e] = (before ++ .turn (.attempt a) :: after) ++ [last] := by
            simpa using hsplit
          obtain ⟨rfl, _⟩ := List.append_inj' hsplit rfl
          exact hunripe before after rfl hripe
    · exact Or.inr ⟨before, after ++ [e], by simp, hfirst⟩

theorem Stirred.of_append {key : String} {es' : List Event} (h : Stirred key es) :
    Stirred key (es ++ es') := by
  obtain ⟨e, he, hstirs⟩ := h
  refine ⟨e, ?_, hstirs⟩
  rw [writes, List.filterMap_append]
  exact List.mem_append_left _ he

theorem verdict_ne_initTimeout (o : DynamicOptions) (content : Option Value) (after : Span) :
    verdict o content ≠ .error (.initTimeout after) := by
  cases content with
  | none =>
    rw [verdict]
    split <;> simp
  | some v =>
    rw [verdict]
    cases v.topology <;> simp

theorem EndsWith.eq_error {outcome : Except Error (Option (Value × Topology))} {cause : Error}
    (h : n.EndsWith a outcome) (hresult : n.result? a = some (.error cause)) :
    outcome = .error cause := by
  cases outcome with
  | error e =>
    have hsame : some (.error e : Except Error Nat) = some (.error cause) := h.symm.trans hresult
    rw [Except.error.inj (Option.some.inj hsame)]
  | ok first =>
    obtain ⟨r, _, hok, _⟩ := h
    rw [hok] at hresult
    cases hresult

/-- The wait times out just if the call is polled when its deadline has come before anything else. -/
theorem Begins.timed_out_iff (h : n.Begins a deadline o s) (hes : ∀ e ∈ es, e.isAround a = true) :
    (n.run es).result? a = some (.error (.initTimeout o.initTimeout)) ↔
      ∃ before after, es = before ++ .turn (.attempt a) :: after ∧ ¬ Stirred o.key before ∧
        deadline ≤ (n.run before).nanos := by
  constructor
  · intro hresult
    rcases unripe_or_exists a o.key deadline n es with hunripe | ⟨before, after, rfl, hunripe, hripe⟩
    · rw [(h.run hes hunripe).1.result?_eq_none] at hresult
      cases hresult
    · by_cases hstirred : Stirred o.key before
      · have hend := h.concluded_of_stirred hes hunripe hstirred
        exact absurd (hend.outcome.eq_error hresult) (verdict_ne_initTimeout o _ _)
      · exact ⟨before, after, rfl, hstirred, hripe.resolve_left hstirred⟩
  · rintro ⟨before, after, rfl, hquiet, hlate⟩
    rcases unripe_or_exists a o.key deadline n before with hunripe |
      ⟨first, between, rfl, hunripe, hripe⟩
    · exact (h.concluded_of_late hes hunripe hquiet hlate).outcome
    · -- An earlier poll has ended the wait, and nothing had happened then either.
      have hquiet : ¬ Stirred o.key first := fun hstirred => hquiet hstirred.of_append
      rw [List.append_assoc] at hes ⊢
      exact (h.concluded_of_late hes hunripe hquiet (hripe.resolve_left hquiet)).outcome

/-- A clock that stands still while the call can go on does not pass the deadline. -/
theorem Begins.now_le (h : n.Begins a deadline o s) (hes : ∀ e ∈ es, e.isAround a = true)
    (hunripe : n.Unripe a o.key deadline es) (hprompt : n.Prompt a es) :
    (n.run es).now ≤ milliseconds deadline := by
  induction es using List.reverseRecOn with
  | nil =>
    have hearly : n.now * 1000000 < deadline := h.early
    change n.now ≤ (deadline + 999999) / 1000000
    omega
  | append_singleton es e ih =>
    have hes' : ∀ k ∈ es, k.isAround a = true := fun k hk => hes k (List.mem_append_left _ hk)
    have hle := ih hes' hunripe.of_append fun before ms after hsame =>
      hprompt before ms (after ++ [e]) (by simp [hsame])
    obtain ⟨hawaits, hstore⟩ := h.run hes' hunripe.of_append
    have he := hes e (by simp)
    rw [run_append]
    change ((n.run es).occur e).now ≤ _
    cases e with
    | pass ms =>
      change (n.run es).now + ms ≤ milliseconds deadline
      rcases Nat.eq_zero_or_pos ms with rfl | hpos
      · exact hle
      · -- A millisecond earlier the call could not go on, so that was before the deadline.
        have hawaits' : ((n.run es).occur (.pass (ms - 1))).Awaits a (s.watch o.key).2 deadline o :=
          ⟨hawaits.progress, hawaits.metrics.congr rfl rfl⟩
        have hidle := hprompt es ms [] rfl (ms - 1) (Nat.sub_lt hpos Nat.one_pos)
        have hearly : ¬ deadline ≤ ((n.run es).now + (ms - 1)) * 1000000 := fun hlate => by
          rw [(hawaits'.isReady_iff (h.offers hstore)).mpr (Or.inr hlate)] at hidle
          cases hidle
        unfold milliseconds
        omega
    | turn t =>
      cases t with
      | attempt b =>
        obtain rfl : b = a := of_decide_eq_true he
        obtain ⟨hquiet, hearly⟩ := not_or.mp (hunripe es [] rfl)
        rw [(hawaits.waits (h.offers_quiet hstore hquiet) hearly).2.2]
        exact hle
      | _ => cases he
    | store _ | refresh => exact hle
    | _ => cases he

end Wait

/-! ### The first turn -/

def watching (key : String) (n : Node) : Node := { n with store := (n.store.watch key).1 }

theorem takeTurn_of_store {y : Initializer} (hr : y.registry = none)
    (hvalid : y.options.validate = .ok ()) (hclient : y.options.client = some .store) (a i : Nat)
    (n : Node) : n.takeTurn a i y =
      if y.options.initTimeout.nanos = 0 then
        (n.watching y.options.key).conclude a i y.options (.watch (n.store.watch y.options.key).2)
      else
        (n.watching y.options.key).await a i y.options (.watch (n.store.watch y.options.key).2)
          (dueAfter n.nanos y.options.initTimeout) := by
  simp only [takeTurn, hr, hvalid, hclient, follow]
  rfl

theorem lt_dueAfter (time : Nat) {span : Span} (h : span.nanos ≠ 0) : time < dueAfter time span := by
  have hpos : 0 < (Span.ofSeconds (30 * 365 * 86400)).nanos := by decide
  unfold dueAfter
  split <;> omega

/-- A call has its first turn: it is to build a registry on a key of the store. -/
structure FirstTurn (i a : Nat) (y : Initializer) (n : Node) : Prop where
  turn : n.HasTurn i a
  initializer : n.initializers[i]? = some y
  new : y.registry = none
  valid : y.options.validate = .ok ()
  client : y.options.client = some .store
  metrics : n.AcceptsMetrics y.options
  sound : n.store.Sound
  numbered : n.store.Numbered

/-- In its first turn a call starts a watch, and then it reads its key at once or waits. -/
structure Watches (i a : Nat) (y : Initializer) (n k : Node) : Prop where
  world : k.world = (n.watching y.options.key).world
  progress : ∃ stage, k.lines.progress? a = some ⟨y.options, stage, false⟩
  step : n.stepAttempt a =
    if y.options.initTimeout.nanos = 0 then
      k.conclude a i y.options (.watch (n.store.watch y.options.key).2)
    else
      k.await a i y.options (.watch (n.store.watch y.options.key).2)
        (dueAfter n.nanos y.options.initTimeout)

section FirstTurn

variable {y : Initializer} {k : Node}

theorem FirstTurn.exists_watches (h : n.FirstTurn i a y) : ∃ k, n.Watches i a y k := by
  obtain ⟨x, m, hx, rfl, hcancelled, hm, hstep⟩ := stepAttempt_of_hasTurn h.turn h.initializer
  rw [takeTurn_of_store h.new h.valid h.client] at hstep
  have hstore : m.store = n.store := congrArg World.store hm.world
  have hnanos : m.nanos = n.nanos := nanos_of_world hm.world
  refine ⟨m.watching y.options.key, ?_, ⟨x.stage, ?_⟩, ?_⟩
  · exact congrArg (fun v => { v with store := (v.store.watch y.options.key).1 }) hm.world
  · rw [← hcancelled]
    exact hm.progress hx h.initializer
  · rw [hstep, hstore, hnanos]

theorem Watches.store (h : n.Watches i a y k) : k.store = (n.store.watch y.options.key).1 :=
  congrArg World.store h.world

theorem Watches.nanos (h : n.Watches i a y k) : k.nanos = n.nanos :=
  nanos_of_world (n := n.watching y.options.key) h.world

theorem Watches.lt (h : n.Watches i a y k) : a < k.attempts.length := by
  obtain ⟨_, hprogress⟩ := h.progress
  exact lt_attempts_of_progress? hprogress

theorem Watches.metrics (h : n.Watches i a y k) (hfirst : n.FirstTurn i a y) :
    k.AcceptsMetrics y.options :=
  hfirst.metrics.congr (congrArg World.expositions h.world) (congrArg World.nextOwner h.world)

theorem Watches.offers (h : n.Watches i a y k) (hfirst : n.FirstTurn i a y) :
    k.store.Offers (n.store.watch y.options.key).2 (n.store.get y.options.key)
      (n.store.get y.options.key).isSome := by
  have hoffers := Store.offers_of_writes hfirst.sound hfirst.numbered y.options.key
    fun e (he : e ∈ []) => absurd he List.not_mem_nil
  rw [List.any_nil, Bool.or_false] at hoffers
  rw [h.store]
  exact hoffers

/-- A call that may not wait, or need not, ends with its first turn. -/
theorem FirstTurn.concluded (h : n.FirstTurn i a y)
    (hwhen : y.options.initTimeout.nanos = 0 ∨ n.store.get y.options.key ≠ none) :
    (n.occur (.turn (.attempt a))).Concluded a y.options
      (verdict y.options (n.store.get y.options.key)) := by
  obtain ⟨k, hk⟩ := h.exists_watches
  have hends : (n.stepAttempt a).EndsWith a (verdict y.options (n.store.get y.options.key)) := by
    by_cases hzero : y.options.initTimeout.nanos = 0
    · have hread : k.store.contentOf (n.store.watch y.options.key).2 = n.store.get y.options.key := by
        rw [hk.store, (Store.shows_watch h.sound _).contentOf_eq]
      rw [hk.step, if_pos hzero, ← hread]
      exact endsWith_conclude hk.lt (hk.metrics h) i _
    · have hoffers := hk.offers h
      rw [Option.isSome_iff_ne_none.mpr (hwhen.resolve_left hzero)] at hoffers
      rw [hk.step, if_neg hzero]
      exact endsWith_await hoffers hk.lt (hk.metrics h) i _
  refine ⟨hends.congr ?_ ?_, progress_of_hasTurn h.turn h.initializer h.new⟩
  · rw [attempts_occur_attempt]
  · rw [followers_occur_attempt]

/-- A call that may wait starts to do so if its key is absent. -/
theorem FirstTurn.begins (h : n.FirstTurn i a y) (hpositive : y.options.initTimeout.nanos ≠ 0)
    (habsent : n.store.get y.options.key = none) :
    (n.occur (.turn (.attempt a))).Begins a (dueAfter n.nanos y.options.initTimeout) y.options
      n.store := by
  obtain ⟨k, hk⟩ := h.exists_watches
  obtain ⟨stage, hprogress⟩ := hk.progress
  have hoffers := hk.offers h
  rw [habsent] at hoffers
  have hearly : n.nanos < dueAfter n.nanos y.options.initTimeout := lt_dueAfter _ hpositive
  have hwaits : n.stepAttempt a = k.modifyAttempt a fun x =>
      { x with
        stage := .waiting (.watch (n.store.watch y.options.key).2)
          (dueAfter n.nanos y.options.initTimeout) } := by
    have hearly : ¬ dueAfter n.nanos y.options.initTimeout ≤ k.nanos := by
      rw [hk.nanos]
      exact Nat.not_le.mpr hearly
    rw [hk.step, if_neg hpositive]
    exact await_early hoffers hearly i
  have hafter : (n.occur (.turn (.attempt a))).world = k.world := by
    rw [world_occur_attempt, hwaits]
    rfl
  refine ⟨⟨?_, ?_⟩, ?_, ?_, h.sound, h.numbered, habsent⟩
  · rw [lines_occur_attempt, hwaits]
    exact Lines.progress?_mark hprogress _
  · exact (hk.metrics h).congr (congrArg World.expositions hafter) (congrArg World.nextOwner hafter)
  · have hnanos : (n.occur (.turn (.attempt a))).nanos = n.nanos :=
      (nanos_of_world hafter).trans hk.nanos
    rw [hnanos]
    exact hearly
  · exact (congrArg World.store hafter).trans hk.store

end FirstTurn

/-- How a call ends that builds a registry and can register its metrics, whatever is written to its key
around it. If it may not wait, or finds a value, its first turn ends it: without a value, with the value and
its topology, or because the value cannot be parsed. Else it waits and can go on when its key was written or
closed, or the deadline has come. A poll after the key was written or closed ends it by what was written
last before the key was closed. It times out just if it is polled when the deadline has come and neither
has happened; and if time stands still while the call can go on, that is in the first millisecond that is
not before the deadline. -/
theorem initial_wait_outcome (past : List Event) {i a : Nat} {y : Initializer}
    (hturn : (start.run past).HasTurn i a) (hy : (start.run past).initializers[i]? = some y)
    (hnew : y.registry = none) (hvalid : y.options.validate = .ok ())
    (hclient : y.options.client = some .store) (hmetrics : (start.run past).AcceptsMetrics y.options) :
    let n := start.run past
    let o := y.options
    let poll : Event := .turn (.attempt a)
    let deadline := dueAfter n.nanos o.initTimeout
    let m := n.occur poll
    (o.initTimeout.nanos < (Span.ofSeconds 9223372036854775808).nanos →
      deadline = n.nanos + o.initTimeout.nanos) ∧
    (o.initTimeout.nanos = 0 ∨ n.store.get o.key ≠ none →
      m.EndsWith a (verdict o (n.store.get o.key))) ∧
    (o.initTimeout.nanos ≠ 0 → n.store.get o.key = none →
      ∀ es, (∀ e ∈ es, e.isAround a = true) →
        (m.Unripe a o.key deadline es → (m.run es).result? a = none ∧
          ((m.run es).isReady (.attempt a) = true ↔ m.Ripe o.key deadline es)) ∧
        (∀ before after, es = before ++ poll :: after → m.Unripe a o.key deadline before →
          Stirred o.key before →
            (m.run es).EndsWith a (verdict o (Store.lastWritten o.key none n.store (writes before)))) ∧
        ((m.run es).result? a = some (.error (.initTimeout o.initTimeout)) ↔
          ∃ before after, es = before ++ poll :: after ∧ ¬ Stirred o.key before ∧
            deadline ≤ (m.run before).nanos) ∧
        (m.Unripe a o.key deadline es → m.Prompt a es → deadline ≤ (m.run es).nanos →
          (m.run es).now = milliseconds deadline)) := by
  intro n o poll deadline m
  have hfirst : n.FirstTurn i a y :=
    ⟨hturn, hy, hnew, hvalid, hclient, hmetrics, sound_run Store.sound_empty past,
      store_run_of (P := Store.Numbered) (fun _ e h => h.occur e) Store.numbered_empty past⟩
  refine ⟨fun hsmall => if_pos hsmall, fun hwhen => (hfirst.concluded hwhen).outcome, ?_⟩
  intro hpositive habsent es hes
  have h : m.Begins a deadline o n.store := hfirst.begins hpositive habsent
  refine ⟨fun hunripe => ⟨(h.run hes hunripe).1.result?_eq_none, h.isReady_iff hes hunripe⟩, ?_,
    h.timed_out_iff hes, ?_⟩
  · rintro before after rfl hunripe hstirred
    exact (h.concluded_of_stirred hes hunripe hstirred).outcome
  · intro hunripe hprompt hlate
    refine Nat.le_antisymm (h.now_le hes hunripe hprompt) ?_
    have hlate : deadline ≤ (m.run es).now * 1000000 := hlate
    unfold milliseconds
    omega

def smallOptions : DynamicOptions :=
  ⟨some .store, "namespaces", Span.ofSeconds 1, "app", Span.ofSeconds 60, "main"⟩

def smallWait : List Event := [.addInitializer smallOptions, .call 0]

/-- The deadline comes, the key is written and closed, and then it is written once more. -/
def smallWoken : List Event :=
  [.pass 1000, .store (.set "namespaces" (smallDocument 97)), .store (.closeKey "namespaces"),
   .store (.set "namespaces" (smallDocument 98))]

/-- A call that is polled only then ends with what was written first, and one to whose key nothing happens
times out. -/
theorem initial_wait_outcome_small :
    let m := (start.run smallWait).occur (.turn (.attempt 0))
    (∃ t, Value.topology ⟨1, smallDocument 97⟩ = .ok t ∧
      (m.run (smallWoken ++ [.turn (.attempt 0)])).EndsWith 0
        (.ok (some (⟨1, smallDocument 97⟩, t)))) ∧
    (m.run [.turn (.attempt 0), .pass 1000, .turn (.attempt 0)]).result? 0 =
      some (.error (.initTimeout (Span.ofSeconds 1))) := by
  intro m
  have hmetrics : (start.run smallWait).AcceptsMetrics smallOptions :=
    exists_ok (by decide +kernel)
  obtain ⟨_, _, hwait⟩ := initial_wait_outcome smallWait (by decide +kernel : HasTurn 0 0 _) rfl rfl
    (by decide +kernel) rfl hmetrics
  have hwait := hwait (by decide) (by decide +kernel)
  constructor
  · obtain ⟨t, ht⟩ : ∃ t, Value.topology ⟨1, smallDocument 97⟩ = .ok t :=
      exists_ok (by decide +kernel)
    have hlast : Store.lastWritten "namespaces" none (start.run smallWait).store (writes smallWoken) =
        some ⟨1, smallDocument 97⟩ := by
      decide +kernel
    have hunripe : m.Unripe 0 "namespaces" (dueAfter 0 (Span.ofSeconds 1)) smallWoken := by
      intro before after hsplit
      have hpoll : Event.turn (.attempt 0) ∈ smallWoken := by simp [hsplit]
      simp [smallWoken] at hpoll
    have hstirred : Stirred "namespaces" smallWoken :=
      ⟨.closeKey "namespaces", by simp [smallWoken, writes, Event.write?, Store.Event.writes], rfl⟩
    have hverdict : verdict smallOptions (some ⟨1, smallDocument 97⟩) =
        .ok (some (⟨1, smallDocument 97⟩, t)) := by
      simp only [verdict, ht]
    have hend : (m.run (smallWoken ++ [.turn (.attempt 0)])).EndsWith 0 (verdict smallOptions
        (Store.lastWritten "namespaces" none (start.run smallWait).store (writes smallWoken))) :=
      (hwait _ (by simp [smallWoken, Event.isAround, Store.Event.writes])).2.1 smallWoken [] rfl hunripe
        hstirred
    rw [hlast, hverdict] at hend
    exact ⟨t, ht, hend⟩
  · have hquiet : ¬ Stirred "namespaces" [.turn (.attempt 0), .pass 1000] := by
      simp [Stirred, writes, Event.write?]
    exact (hwait [.turn (.attempt 0), .pass 1000, .turn (.attempt 0)]
      (by simp [Event.isAround])).2.2.1.mpr ⟨[.turn (.attempt 0), .pass 1000], [], rfl, hquiet, by decide +kernel⟩

end NamespaceTopology.Node
