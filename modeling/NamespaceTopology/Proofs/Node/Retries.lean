import NamespaceTopology.Proofs.Node.World

set_option autoImplicit false

/-!
Calls that start over. As long as no registry stands at its initializer, a call whose turn it is does what
the first call on a new initializer would do, and as the world goes on around both of them they stay alike
to the end.
-/
namespace NamespaceTopology

/-- A call that has begun to build waits for a value, or it is over. -/
def Stage.hasBegun : Stage → Bool
  | .fresh | .queued => false
  | .waiting _ _ | .finished _ | .abandoned => true

namespace Node

structure Progress where
  options : DynamicOptions
  stage : Stage
  cancelled : Bool

namespace Lines

def progress? (a : Nat) (l : Lines) : Option Progress :=
  (l.attempts[a]?).bind fun x =>
    (l.initializers[x.initializer]?).map fun y => ⟨y.options, x.stage, x.cancelled⟩

variable {a i : Nat} {l l' : Lines} {p : Progress}

theorem progress?_eq_some (h : l.progress? a = some p) : ∃ (x : Attempt) (y : Initializer),
    l.attempts[a]? = some x ∧ l.initializers[x.initializer]? = some y ∧
      p = ⟨y.options, x.stage, x.cancelled⟩ := by
  obtain ⟨x, hx, hmap⟩ := Option.bind_eq_some_iff.mp h
  obtain ⟨y, hy, rfl⟩ := Option.map_eq_some_iff.mp hmap
  exact ⟨x, y, hx, hy, rfl⟩

theorem progress?_mark (h : l.progress? a = some p) (stage : Stage) :
    (l.mark a stage).progress? a = some { p with stage } := by
  obtain ⟨x, y, hx, hy, rfl⟩ := progress?_eq_some h
  rw [progress?, getElem?_attempts_mark stage hx]
  exact congrArg (Option.map _) hy

/-- A line may change, and what stands at it, as long as the options stay. -/
theorem progress?_modify (h : l.progress? a = some p) (i : Nat) {f : Initializer → Initializer}
    (hf : ∀ y, (f y).options = y.options) :
    progress? a { l with initializers := l.initializers.modify i f } = some p := by
  obtain ⟨x, y, hx, hy, rfl⟩ := progress?_eq_some h
  simp only [progress?, hx, Option.bind_some, List.getElem?_modify, hy, Option.map_some,
    Option.map_eq_map, Option.some.injEq, Progress.mk.injEq, and_true]
  split
  · exact hf y
  · rfl

theorem progress?_leave (h : l.progress? a = some p) (i : Nat) (stage : Stage) :
    (l.leave a i stage).progress? a = some { p with stage } := by
  refine progress?_modify (progress?_mark h stage) i ?_
  intro y
  rfl

theorem progress?_found (h : l.progress? a = some p) (i : Nat) : (l.found i).progress? a = some p := by
  refine progress?_modify h i ?_
  intro y
  rfl

theorem Built.progress (h : l.Built a i l') (hp : l.progress? a = some p) : ∃ stage : Stage,
    stage.hasBegun = true ∧ l'.progress? a = some { p with stage } := by
  cases h with
  | waits remote deadline => exact ⟨.waiting remote deadline, rfl, progress?_mark hp _⟩
  | fails e => exact ⟨.finished (.error e), rfl, progress?_leave hp i _⟩
  | founds =>
    exact ⟨.finished (.ok l.founded), rfl, progress?_leave (progress?_found hp i) i _⟩

end Lines

variable {a b i : Nat} {n m : Node} {p : Progress}

theorem stageAt_of_progress? (h : n.lines.progress? a = some p) : n.stageAt a = some p.stage := by
  obtain ⟨x, y, hx, _, rfl⟩ := Lines.progress?_eq_some h
  have hx : n.attempts[a]? = some x := hx
  rw [stageAt, hx]
  rfl

theorem lt_attempts_of_progress? (h : n.lines.progress? a = some p) : a < n.attempts.length := by
  obtain ⟨x, _, hx, _⟩ := Lines.progress?_eq_some h
  exact (List.getElem?_eq_some_iff.mp hx).1

theorem lines_occur_attempt (a : Nat) (n : Node) :
    (n.occur (.turn (.attempt a))).lines = (n.stepAttempt a).lines := by
  have hline (k : Node) : (k.dequeue (.attempt a)).refresh.lines = k.lines := rfl
  exact hline (n.stepAttempt a)

/-- What a turn of a call that has begun comes to: it is given up, it goes on waiting, or it is over. -/
theorem stepAttempt_of_progress? (h : n.lines.progress? a = some p)
    (hbegun : p.stage.hasBegun = true) : ∃ i, n.stepAttempt a =
      if p.cancelled then n.abandon a i p.stage else
        match p.stage with
        | .waiting remote deadline => n.await a i p.options remote deadline
        | _ => n.endTask (.attempt a) := by
  obtain ⟨⟨i, stage, cancelled⟩, y, hx, hy, rfl⟩ := Lines.progress?_eq_some h
  have hattempt : n.attempts[a]? = some ⟨i, stage, cancelled⟩ := hx
  have hinitializer : n.initializers[i]? = some y := hy
  refine ⟨i, ?_⟩
  rw [stepAttempt, hattempt]
  cases cancelled with
  | true => rfl
  | false =>
    simp only [hinitializer, Bool.false_eq_true, if_false]
    cases stage with
    | waiting _ _ | finished _ | abandoned => rfl
    | fresh | queued => cases hbegun

/-! ### Twins -/

/-- Two calls have been asked for the same, have come as far as each other, and have made the same of the
world. -/
structure Twins (a : Nat) (n : Node) (b : Nat) (m : Node) : Prop where
  world : m.world = n.world
  progress : ∃ p : Progress, n.lines.progress? a = some p ∧ m.lines.progress? b = some p ∧
    p.stage.hasBegun = true

theorem Twins.alike (h : Twins a n b m) : Alike a n b m := by
  obtain ⟨hworld, p, hn, hm, _⟩ := h
  exact ⟨hworld, (stageAt_of_progress? hm).trans (stageAt_of_progress? hn).symm⟩

theorem twins_of_alike {q : Progress} {stage stage' : Stage} (h : Alike a n b m)
    (hn : n.lines.progress? a = some { q with stage := stage })
    (hm : m.lines.progress? b = some { q with stage := stage' }) (hbegun : stage.hasBegun = true) :
    Twins a n b m := by
  have hsame : some stage' = some stage :=
    (stageAt_of_progress? hm).symm.trans (h.stage.trans (stageAt_of_progress? hn))
  obtain rfl := Option.some.inj hsame
  exact ⟨h.world, _, hn, hm, hbegun⟩

theorem Twins.turn (h : Twins a n b m) :
    Twins a (n.occur (.turn (.attempt a))) b (m.occur (.turn (.attempt b))) := by
  obtain ⟨hworld, p, hn, hm, hbegun⟩ := h
  have ha := lt_attempts_of_progress? hn
  have hb := lt_attempts_of_progress? hm
  obtain ⟨i, hi⟩ := stepAttempt_of_progress? hn hbegun
  obtain ⟨j, hj⟩ := stepAttempt_of_progress? hm hbegun
  have hstep : Twins a (n.stepAttempt a) b (m.stepAttempt b) := by
    rw [hi, hj]
    cases p.cancelled with
    | true =>
      have hgone {k : Node} {c : Nat} (j : Nat) (hk : k.lines.progress? c = some p) :
          (k.abandon c j p.stage).lines.progress? c = some { p with stage := .abandoned } := by
        rw [lines_abandon]
        exact Lines.progress?_leave hk j .abandoned
      exact twins_of_alike (alike_abandon hworld ha hb i j p.stage) (hgone i hn) (hgone j hm) rfl
    | false =>
      simp only [Bool.false_eq_true, if_false]
      cases hstage : p.stage with
      | waiting remote deadline =>
        obtain ⟨_, hbegun, hn⟩ := (built_await a i p.options remote deadline n).progress hn
        obtain ⟨_, _, hm⟩ := (built_await b j p.options remote deadline m).progress hm
        exact twins_of_alike (alike_await hworld ha hb p.options remote deadline) hn hm hbegun
      | finished _ | abandoned => exact ⟨hworld, p, hn, hm, hbegun⟩
      | fresh | queued =>
        rw [hstage] at hbegun
        cases hbegun
  obtain ⟨hworld, p, hn, hm, hbegun⟩ := hstep
  refine ⟨?_, p, ?_, ?_, hbegun⟩
  · rw [world_occur_attempt, world_occur_attempt, hworld]
  · rw [lines_occur_attempt, hn]
  · rw [lines_occur_attempt, hm]

/-! ### As the world goes on -/

/-- What can happen while a call builds: it has its turn or is given up, and the world around it changes. -/
inductive Happening where
  | turn
  | cancel
  | store (e : Store.Event)
  | feed (e : Feed.Event)
  | closeOnRead (r : Nat)
  | register (exposition : String) (c : Collector)
  | unregister (exposition : String) (c : Collector)
  | pass (milliseconds : Nat)

def Happening.event (a : Nat) : Happening → Event
  | .turn => .turn (.attempt a)
  | .cancel => .cancel a
  | .store e => .store e
  | .feed e => .feed e
  | .closeOnRead r => .closeOnRead r
  | .register exposition c => .register exposition c
  | .unregister exposition c => .unregister exposition c
  | .pass milliseconds => .pass milliseconds

theorem world_register_under (exposition : String) (c : Collector) (n m : Node) :
    ((n.under m).occur (.register exposition c)).world =
      (n.occur (.register exposition c)).world := by
  have hexposition : (n.under m).exposition exposition = n.exposition exposition := rfl
  simp only [occur, register, hexposition]
  cases c.fault? with
  | some cause => rfl
  | none => cases (n.exposition exposition).register c <;> rfl

theorem world_unregister_under (exposition : String) (c : Collector) (n m : Node) :
    ((n.under m).occur (.unregister exposition c)).world =
      (n.occur (.unregister exposition c)).world := by
  have hexposition : (n.under m).exposition exposition = n.exposition exposition := rfl
  simp only [occur, unregister, hexposition]
  cases (n.exposition exposition).unregister c <;> rfl

theorem Twins.happen (h : Twins a n b m) (e : Happening) :
    Twins a (n.occur (e.event a)) b (m.occur (e.event b)) := by
  obtain ⟨hworld, p, hn, hm, hbegun⟩ := id h
  have hunder := under_of_world_eq hworld
  cases e with
  | turn => exact h.turn
  | cancel =>
    have hcancelled {k : Node} {c : Nat} (hk : k.lines.progress? c = some p) :
        (k.cancel c).lines.progress? c = some { p with cancelled := true } := by
      obtain ⟨x, y, hx, hy, rfl⟩ := Lines.progress?_eq_some hk
      have hx : k.attempts[c]? = some x := hx
      have hy : k.initializers[x.initializer]? = some y := hy
      simp [Lines.progress?, lines, cancel, modifyAttempt, hx, hy]
    exact ⟨hworld, _, hcancelled hn, hcancelled hm, hbegun⟩
  | store _ | feed _ | closeOnRead _ | pass _ =>
    refine ⟨?_, p, hn, hm, hbegun⟩
    rw [← hunder]
    rfl
  | register exposition c =>
    refine ⟨?_, p, ?_, ?_, hbegun⟩
    · rw [← hunder]
      exact world_register_under exposition c n m
    · exact (congrArg _ (lines_of_core (core_register exposition c n))).trans hn
    · exact (congrArg _ (lines_of_core (core_register exposition c m))).trans hm
  | unregister exposition c =>
    refine ⟨?_, p, ?_, ?_, hbegun⟩
    · rw [← hunder]
      exact world_unregister_under exposition c n m
    · exact (congrArg _ (lines_of_core (core_unregister exposition c n))).trans hn
    · exact (congrArg _ (lines_of_core (core_unregister exposition c m))).trans hm

theorem Twins.run (h : Twins a n b m) (es : List Happening) :
    Twins a (n.run (es.map (·.event a))) b (m.run (es.map (·.event b))) := by
  induction es generalizing n m with
  | nil => exact h
  | cons e es ih => exact ih (h.happen e)

/-! ### Whose turn it is -/

/-- A call that nobody has given up has come to an empty line or stands first in it. -/
def HasTurn (i a : Nat) (n : Node) : Prop := ∃ (x : Attempt) (y : Initializer),
  n.attempts[a]? = some x ∧ x.initializer = i ∧ x.cancelled = false ∧ n.initializers[i]? = some y ∧
    ((x.stage = .fresh ∧ y.queue = []) ∨ (x.stage = .queued ∧ y.queue.head? = some a))

def isAtTurn (i a : Nat) (n : Node) : Bool :=
  (n.attempts[a]?).any fun x => x.initializer = i && !x.cancelled && match x.stage with
    | .fresh => (n.initializers[i]?).any fun y => y.queue.isEmpty
    | .queued => n.isFirst a i
    | _ => false

theorem isAtTurn_iff : n.isAtTurn i a = true ↔ n.HasTurn i a := by
  constructor
  · intro h
    obtain ⟨x, hx, h⟩ := (Option.any_eq_true ..).mp h
    simp only [Bool.and_eq_true, decide_eq_true_eq, Bool.not_eq_true'] at h
    obtain ⟨⟨hi, hcancelled⟩, hqueue⟩ := h
    cases hstage : x.stage with
    | fresh =>
      rw [hstage] at hqueue
      obtain ⟨y, hy, hempty⟩ := (Option.any_eq_true ..).mp hqueue
      exact ⟨x, y, hx, hi, hcancelled, hy, Or.inl ⟨hstage, List.isEmpty_iff.mp hempty⟩⟩
    | queued =>
      rw [hstage] at hqueue
      obtain ⟨y, hy, hfirst⟩ := (Option.any_eq_true ..).mp hqueue
      exact ⟨x, y, hx, hi, hcancelled, hy, Or.inr ⟨hstage, of_decide_eq_true hfirst⟩⟩
    | waiting _ _ | finished _ | abandoned =>
      rw [hstage] at hqueue
      cases hqueue
  · rintro ⟨x, y, hx, hi, hcancelled, hy, ⟨hstage, hempty⟩ | ⟨hstage, hfirst⟩⟩
    · simp [isAtTurn, hx, hi, hcancelled, hstage, hy, hempty]
    · simp [isAtTurn, isFirst, hx, hi, hcancelled, hstage, hy, hfirst]

instance : Decidable (n.HasTurn i a) := decidable_of_iff _ isAtTurn_iff

theorem Reaches.world {x : Attempt} {y : Initializer} (h : n.Reaches a x y m) : m.world = n.world := by
  cases h <;> rfl

theorem Reaches.attempts {x : Attempt} {y : Initializer} (h : n.Reaches a x y m) :
    m.attempts = n.attempts := by
  cases h <;> rfl

theorem stepAttempt_of_hasTurn {y : Initializer} (h : n.HasTurn i a)
    (hy : n.initializers[i]? = some y) : ∃ (x : Attempt) (m : Node), n.attempts[a]? = some x ∧
      x.initializer = i ∧ x.cancelled = false ∧ n.Reaches a x y m ∧
      n.stepAttempt a = m.takeTurn a i y := by
  obtain ⟨⟨i, stage, cancelled⟩, z, hx, rfl, rfl, hz, hturn⟩ := h
  obtain rfl := Option.some.inj (hy.symm.trans hz)
  rcases hturn with ⟨rfl, hqueue⟩ | ⟨rfl, hfirst⟩
  · refine ⟨_, _, hx, rfl, rfl, .fresh rfl hqueue, ?_⟩
    simp [stepAttempt, hx, hy, hqueue]
  · refine ⟨_, _, hx, rfl, rfl, .queued rfl hfirst, ?_⟩
    simp [stepAttempt, isFirst, hx, hy, hfirst]

def withFirst (o : DynamicOptions) (n : Node) : Node :=
  ((n.addInitializer o).1.call n.initializers.length).1

theorem getElem?_initializers_withFirst (o : DynamicOptions) (n : Node) :
    (n.withFirst o).initializers[n.initializers.length]? = some ⟨o, none, []⟩ :=
  List.getElem?_concat_length

theorem hasTurn_withFirst (o : DynamicOptions) (n : Node) :
    (n.withFirst o).HasTurn n.initializers.length n.attempts.length :=
  ⟨⟨n.initializers.length, .fresh, false⟩, ⟨o, none, []⟩, List.getElem?_concat_length, rfl, rfl,
    getElem?_initializers_withFirst o n, Or.inl ⟨rfl, rfl⟩⟩

/-- A call on an initializer without a registry does what the first call on a new initializer with the same
options would do. -/
theorem starts_over {y : Initializer} (h : n.HasTurn i a) (hy : n.initializers[i]? = some y)
    (hr : y.registry = none) :
    Alike a (n.occur (.turn (.attempt a))) n.attempts.length
      ((n.withFirst y.options).occur (.turn (.attempt n.attempts.length))) := by
  obtain ⟨x, k, hx, _, _, hk, hstep⟩ := stepAttempt_of_hasTurn h hy
  obtain ⟨x', k', hx', _, _, hk', hstep'⟩ := stepAttempt_of_hasTurn (hasTurn_withFirst y.options n)
    (getElem?_initializers_withFirst y.options n)
  have hworld : (n.withFirst y.options).world = n.world := rfl
  have halike : Alike a (k.takeTurn a i y) n.attempts.length
      (k'.takeTurn n.attempts.length n.initializers.length ⟨y.options, none, []⟩) := by
    refine alike_takeTurn (hk'.world.trans (hworld.trans hk.world.symm)) ?_ ?_ rfl hr rfl
    · rw [hk.attempts]
      exact (List.getElem?_eq_some_iff.mp hx).1
    · rw [hk'.attempts]
      exact (List.getElem?_eq_some_iff.mp hx').1
  rw [← hstep, ← hstep'] at halike
  constructor
  · rw [world_occur_attempt, world_occur_attempt]
    exact halike.world
  · rw [stageAt, stageAt, attempts_occur_attempt, attempts_occur_attempt]
    exact halike.stage

theorem Reaches.progress {x : Attempt} {y : Initializer} (h : n.Reaches a x y m)
    (hx : n.attempts[a]? = some x) (hy : n.initializers[x.initializer]? = some y) :
    m.lines.progress? a = some ⟨y.options, x.stage, x.cancelled⟩ := by
  have hp : n.lines.progress? a = some ⟨y.options, x.stage, x.cancelled⟩ := by
    simp [Lines.progress?, lines, hx, hy]
  cases h with
  | queued _ _ => exact hp
  | fresh _ _ =>
    refine Lines.progress?_modify hp x.initializer ?_
    intro y
    rfl

theorem progress_of_hasTurn {y : Initializer} (h : n.HasTurn i a) (hy : n.initializers[i]? = some y)
    (hr : y.registry = none) : ∃ stage : Stage, stage.hasBegun = true ∧
      (n.occur (.turn (.attempt a))).lines.progress? a = some ⟨y.options, stage, false⟩ := by
  obtain ⟨⟨i, stage, cancelled⟩, m, hx, rfl, rfl, hm, hstep⟩ := stepAttempt_of_hasTurn h hy
  rw [lines_occur_attempt, hstep]
  exact (built_takeTurn a i hr m).progress (hm.progress hx hy)

/-- A call whose turn it is on an initializer without a registry goes the way of a first call, whatever
happens around it. -/
theorem twins_of_hasTurn {y : Initializer} (h : n.HasTurn i a) (hy : n.initializers[i]? = some y)
    (hr : y.registry = none) : Twins a (n.occur (.turn (.attempt a))) n.attempts.length
      ((n.withFirst y.options).occur (.turn (.attempt n.attempts.length))) := by
  obtain ⟨stage, hbegun, hp⟩ := progress_of_hasTurn h hy hr
  obtain ⟨stage', _, hp'⟩ := progress_of_hasTurn (hasTurn_withFirst y.options n)
    (getElem?_initializers_withFirst y.options n) rfl
  exact twins_of_alike (q := ⟨y.options, stage, false⟩) (starts_over h hy hr) hp hp' hbegun

def registryOf (i : Nat) (n : Node) : Option Nat := n.lines.registryOf i

/-- From its turn on a call stays alike to the first call on a new initializer with the same options,
whatever happens around both of them. -/
def GoesAsFirst (i a : Nat) (n : Node) : Prop :=
  ∀ (y : Initializer) (es : List Happening), n.initializers[i]? = some y →
    Alike a ((n.occur (.turn (.attempt a))).run (es.map (·.event a))) n.attempts.length
      (((n.withFirst y.options).occur (.turn (.attempt n.attempts.length))).run
        (es.map (·.event n.attempts.length)))

theorem goesAsFirst (h : n.HasTurn i a) (hr : n.registryOf i = none) : n.GoesAsFirst i a := by
  intro y es hy
  exact ((twins_of_hasTurn h hy ((Lines.registryOf_eq hy).symm.trans hr)).run es).alike

end Node

end NamespaceTopology
