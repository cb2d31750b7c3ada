import NamespaceTopology.Proofs.Config.Scopes
import NamespaceTopology.Proofs.Metrics.Conflicts
import NamespaceTopology.Proofs.Node.Initialization

set_option autoImplicit false

/-!
Settings that passed their check make options that a registry can be initialized with. A call may still
fail, for it may wait in vain, or find something in the store that is no topology, or a name that is kept
for other metrics. It never fails for its options.
-/
namespace NamespaceTopology

/-- The options are to blame for an error: one of them is refused, or makes a metric that cannot be. -/
def Error.BlamesOptions (e : Error) : Prop :=
  (∃ cause, e = .config cause) ∨ ∃ (c : Collector) (cause : MetricsError),
    c.fault? = some cause ∧ e = .metrics cause

namespace Node

variable {a i : Nat} {n m : Node}

/-! ### Options stay -/

namespace Lines

def optionsOf (i : Nat) (l : Lines) : Option DynamicOptions :=
  (l.initializers[i]?).map Initializer.options

theorem optionsOf_modify {f : Initializer → Initializer} (hf : ∀ y, (f y).options = y.options)
    (i j : Nat) (l : Lines) :
    optionsOf j { l with initializers := l.initializers.modify i f } = l.optionsOf j := by
  simp only [optionsOf, List.getElem?_modify]
  cases l.initializers[j]? with
  | none => rfl
  | some y =>
    simp only [Option.map_eq_map, Option.map_some]
    split
    · exact congrArg some (hf y)
    · rfl

theorem optionsOf_leave (a i j : Nat) (stage : Stage) (l : Lines) :
    (l.leave a i stage).optionsOf j = l.optionsOf j := by
  refine optionsOf_modify ?_ i j (l.mark a stage)
  intro y
  rfl

theorem optionsOf_join (a i j : Nat) (l : Lines) : (l.join a i).optionsOf j = l.optionsOf j := by
  refine optionsOf_modify ?_ i j l
  intro y
  rfl

theorem optionsOf_found (i j : Nat) (l : Lines) : (l.found i).optionsOf j = l.optionsOf j := by
  refine optionsOf_modify ?_ i j l
  intro y
  rfl

theorem Built.optionsOf {l l' : Lines} (h : l.Built a i l') (j : Nat) :
    l'.optionsOf j = l.optionsOf j := by
  cases h with
  | waits _ _ => rfl
  | fails e => exact optionsOf_leave a i j _ l
  | founds => exact (optionsOf_leave a i j _ (l.found i)).trans (optionsOf_found i j l)

theorem Turn.optionsOf {l l' : Lines} (h : l.Turn a l') (j : Nat) : l'.optionsOf j = l.optionsOf j := by
  obtain ⟨k, hk, hl'⟩ := h
  have henters : k.optionsOf j = l.optionsOf j := by
    cases hk with
    | stays => rfl
    | queues _ _ _ => exact optionsOf_join a _ j l
  rw [← henters]
  rcases hl' with rfl | hmove
  · rfl
  · cases hmove with
    | abandons _ | answers _ _ _ _ => exact optionsOf_leave a _ j _ k
    | builds _ _ _ _ _ hbuilt => exact hbuilt.optionsOf j

theorem Comes.optionsOf {l l' : Lines} (h : l.Comes l') {o : DynamicOptions}
    (ho : l.optionsOf i = some o) : l'.optionsOf i = some o := by
  cases h with
  | stays | calls _ | cancels _ => exact ho
  | opens o' =>
    obtain ⟨y, hy, hoptions⟩ := Option.map_eq_some_iff.mp ho
    have hlt : i < l.initializers.length := (List.getElem?_eq_some_iff.mp hy).1
    exact (congrArg _ (List.getElem?_append_left hlt)).trans ho

end Lines

theorem Lined.optionsOf_run (hn : n.Lined) {o : DynamicOptions} (ho : n.lines.optionsOf i = some o)
    (es : List Event) : (n.run es).lines.optionsOf i = some o := by
  induction es generalizing n with
  | nil => exact ho
  | cons e es ih =>
    refine ih (hn.occur e) ?_
    rcases lines_occur hn e with hcomes | ⟨_, _, hturn⟩
    · exact hcomes.optionsOf ho
    · exact (hturn.optionsOf i).trans ho

/-! ### Turns -/

def Excused (a : Nat) (n : Node) : Prop :=
  ∀ e, n.stageAt a = some (.finished (.error e)) → ¬e.BlamesOptions

theorem excused_of_attempts {stage : Stage}
    (h : m.attempts = n.attempts.modify a fun x => { x with stage })
    (hstage : ∀ e, stage = .finished (.error e) → ¬e.BlamesOptions) : m.Excused a := by
  intro e he
  obtain ⟨x, hx, hfinished⟩ := Option.map_eq_some_iff.mp he
  rw [h, List.getElem?_modify_eq] at hx
  obtain ⟨y, hy, rfl⟩ := Option.map_eq_some_iff.mp hx
  exact hstage e hfinished

theorem excused_endAttempt {stage : Stage} (hstage : ∀ e, stage = .finished (.error e) → ¬e.BlamesOptions)
    (n : Node) : (n.endAttempt a i stage).Excused a :=
  excused_of_attempts rfl hstage

theorem excused_fail {e : Error} (he : ¬e.BlamesOptions) (remote : Remote) (n : Node) :
    (n.fail a i remote e).Excused a :=
  excused_endAttempt (fun _ h => by rwa [← Except.error.inj (Stage.finished.inj h)]) _

theorem not_blamesOptions_of_create {o : DynamicOptions} (ho : o.validate = .ok ()) {owner : Nat}
    {e : Exposition} {cause : MetricsError} (h : (Instruments.create owner o.scope e).result = .error cause) :
    ¬(Error.metrics cause).BlamesOptions := by
  obtain ⟨c, e', hregister⟩ :=
    Instruments.exists_register_of_create ((DynamicOptions.validate_eq_ok_iff o).mp ho).2.2.2 h
  rintro (⟨cause', heq⟩ | ⟨c', cause', hfault, heq⟩)
  · cases heq
  · obtain rfl := Error.metrics.inj heq
    exact Instruments.fault?_ne_of_register hregister hfault

theorem excused_build {o : DynamicOptions} (ho : o.validate = .ok ()) (remote : Remote)
    (first : Option (Value × Topology)) (n : Node) : (n.build a i o remote first).Excused a := by
  have hstep := build_step a i o remote first n
  generalize n.build a i o remote first = m at hstep ⊢
  cases hstep with
  | fails hmade =>
    have hresult : (Instruments.create n.nextOwner o.scope (n.exposition o.exposition)).result = _ :=
      congrArg Prod.snd hmade
    exact excused_fail (not_blamesOptions_of_create ho hresult) remote _
  | founds _ _ => exact excused_endAttempt (fun e h => by cases h) _

theorem excused_conclude {o : DynamicOptions} (ho : o.validate = .ok ()) (remote : Remote) (n : Node) :
    (n.conclude a i o remote).Excused a := by
  have hnamespaces (cause : NamespaceError) : ¬(Error.namespaces cause).BlamesOptions := by
    simp [Error.BlamesOptions]
  have hstep := conclude_step a i o remote n
  generalize n.conclude a i o remote = m at hstep ⊢
  cases hstep with
  | builds _ _ | empty _ _ => exact excused_build ho remote _ _
  | invalid _ _ | absent _ _ => exact excused_fail (hnamespaces _) remote _

theorem excused_await {o : DynamicOptions} (ho : o.validate = .ok ()) (remote : Remote) (deadline : Nat)
    (n : Node) : (n.await a i o remote deadline).Excused a := by
  have hstep := await_step a i o remote deadline n
  generalize n.await a i o remote deadline = m at hstep ⊢
  cases hstep with
  | changed _ | ended _ => exact excused_conclude ho remote _
  | late _ _ => exact excused_fail (by simp [Error.BlamesOptions]) remote _
  | waits _ _ => exact excused_of_attempts rfl fun e h => by cases h

theorem excused_takeTurn {y : Initializer} (ho : y.options.validate = .ok ()) (n : Node) :
    (n.takeTurn a i y).Excused a := by
  have hstep := turn_step a i y n
  generalize n.takeTurn a i y = m at hstep ⊢
  cases hstep with
  | stands _ => exact excused_endAttempt (fun e h => by cases h) n
  | invalid _ hvalid =>
    rw [ho] at hvalid
    cases hvalid
  | unfollowed _ _ _ _ =>
    refine excused_endAttempt (fun e h => ?_) n
    obtain rfl := Except.error.inj (Stage.finished.inj h)
    simp [Error.BlamesOptions]
  | concludes _ _ _ _ _ => exact excused_conclude ho _ _
  | awaits _ _ _ _ _ => exact excused_await ho _ _ _

theorem excused_stepAttempt (hbefore : n.Excused a)
    (hvalid : ∀ (x : Attempt) (y : Initializer), n.attempts[a]? = some x →
      n.initializers[x.initializer]? = some y → y.options.validate = .ok ()) :
    (n.stepAttempt a).Excused a := by
  have hturned := turned_stepAttempt a n
  generalize n.stepAttempt a = m at hturned ⊢
  cases hturned with
  | stays | ends => exact hbefore
  | @abandons x hx _ =>
    unfold abandon
    cases x.stage with
    | waiting _ _ | fresh | queued | finished _ | abandoned =>
      exact excused_endAttempt (fun e h => by cases h) _
  | queues _ _ _ _ => exact excused_of_attempts rfl fun e h => by cases h
  | takes hx hy _ => exact excused_takeTurn (hvalid _ _ hx hy) _
  | resumes hx hy _ => exact excused_await (hvalid _ _ hx hy) _ _ n

/-! ### Along a run -/

theorem excused_of_result?_none (h : n.result? a = none) : n.Excused a := by
  intro e he
  obtain ⟨x, hx, hstage⟩ := Option.map_eq_some_iff.mp he
  rw [result?_of_stage hx hstage] at h
  cases h

theorem not_blamesOptions_of_returned {o : DynamicOptions} (ho : o.validate = .ok ())
    (hi : ∀ o', n.lines.optionsOf i = some o' → o' = o) {event : Event} {e : Error}
    (h : n.returned? i event = some (.error e)) : ¬e.BlamesOptions := by
  unfold returned? at h
  split at h
  next a =>
    split at h
    next hcall =>
      obtain ⟨hcall, hbefore⟩ : n.isCallOn i a = true ∧ n.result? a = none := by simpa using hcall
      obtain ⟨x, hx, rfl⟩ := exists_of_isCallOn hcall
      have hexcused : (n.stepAttempt a).Excused a := by
        refine excused_stepAttempt (excused_of_result?_none hbefore) fun x' y hx' hy => ?_
        obtain rfl := Option.some.inj (hx.symm.trans hx')
        rw [hi y.options (Option.map_eq_some_iff.mpr ⟨y, hy, rfl⟩)]
        exact ho
      obtain ⟨x', hx', hstage⟩ := result?_eq_some h
      have hx' : (n.stepAttempt a).attempts[a]? = some x' := by
        rw [← attempts_occur_attempt]
        exact hx'
      exact hexcused e (Option.map_eq_some_iff.mpr ⟨x', hx', hstage⟩)
    next => cases h
  next => cases h

/-- No call on an initializer with options that pass the check ever fails for them. -/
theorem Lined.not_blamesOptions (hn : n.Lined) {o : DynamicOptions} (ho : o.validate = .ok ())
    (es : List Event) (hi : (n.run es).lines.optionsOf i = some o) {e : Error}
    (h : .error e ∈ n.returnedAlong i es) : ¬e.BlamesOptions := by
  induction es generalizing n with
  | nil => cases h
  | cons event es ih =>
    rcases List.mem_append.mp h with hnow | hlater
    · refine not_blamesOptions_of_returned ho (fun o' ho' => ?_) (Option.mem_toList.mp hnow)
      exact Option.some.inj ((hn.optionsOf_run ho' (event :: es)).symm.trans hi)
    · exact ih (hn.occur event) hi hlater

/-- The check of settings and the check of the options that any client makes of them agree, but for the
sign of the timeout, and both take the scopes that match `[a-zA-Z_][a-zA-Z0-9_]*`. Under options that pass,
instruments are made unless their names are kept for other metrics. So whatever happens, no call on an
initializer with checked settings fails for a setting or for the name of a metric. -/
theorem checked_settings_are_usable :
    (∀ (s : Settings) (client : Client) (exposition : String), s.validate.toBool = true ↔
      0 ≤ s.registry.initTimeoutMs.toInt ∧
        (DynamicOptions.forClient client exposition s).validate = .ok ()) ∧
    (∀ s : MonitoringSettings, s.validate.toBool = true ↔
      s.scope.toList ∈ scopePattern.matches' ∧ s.reportIntervalMs ≠ 0) ∧
    (∀ o : DynamicOptions, o.validate = .ok () ↔ o.client ≠ none ∧ Text.isAllBlank o.key = false ∧
      o.reportInterval.nanos ≠ 0 ∧ o.scope.toList ∈ scopePattern.matches') ∧
    (∀ (o : DynamicOptions) (owner : Nat) (e : Exposition), o.validate = .ok () →
      ((Instruments.create owner o.scope e).result.toBool = true ↔
        ¬e.Conflicts (Instruments.counterOf owner o.scope) ∧
        ¬e.Conflicts (Instruments.gaugeOf owner o.scope))) ∧
    ∀ (es : List Event) (i : Nat) (s : Settings) (client : Client) (exposition : String) (e : Error),
      s.validate.toBool = true →
      (start.run es).lines.optionsOf i = some (DynamicOptions.forClient client exposition s) →
      .error e ∈ start.returnedAlong i es →
      (∀ cause, e ≠ .config cause) ∧
        ∀ (c : Collector) (cause : MetricsError), c.fault? = some cause → e ≠ .metrics cause := by
  refine ⟨validate_forClient_iff, fun s => ?_, fun o => ?_, fun o owner exposition ho => ?_, ?_⟩
  · rw [s.validate_isOk_iff, isScope_iff]
  · rw [o.validate_eq_ok_iff, isScope_iff]
  · exact Instruments.create_isOk_iff ((DynamicOptions.validate_eq_ok_iff o).mp ho).2.2.2 owner exposition
  · intro es i s client exposition e hs hi he
    have ho := ((validate_forClient_iff s client exposition).mp hs).2
    have hblames : ¬e.BlamesOptions := lined_start.not_blamesOptions ho es hi he
    refine ⟨fun cause heq => hblames (Or.inl ⟨cause, heq⟩), fun c cause hfault heq => ?_⟩
    exact hblames (Or.inr ⟨c, cause, hfault, heq⟩)

def smallDefaults : List Event :=
  [.addInitializer (.forClient .store "main" .default), .call 0, .turn (.attempt 0), .pass 30000,
   .turn (.attempt 0)]

theorem checked_settings_are_usable_small :
    Settings.default.validate.toBool = true ∧
    (DynamicOptions.forClient .store "main" .default).validate = .ok () ∧
    "namespace_registry".toList ∈ scopePattern.matches' ∧
    (Instruments.create 0 "namespace_registry" .empty).result.toBool = true ∧
    ∃ e, .error e ∈ start.returnedAlong 0 smallDefaults ∧ ∀ cause, e ≠ .config cause := by
  obtain ⟨hagree, hscope, _, hmade, hnever⟩ := checked_settings_are_usable
  have hvalid : Settings.default.validate.toBool = true := by decide +kernel
  have hoptions := ((hagree .default .store "main").mp hvalid).2
  have hmonitoring : MonitoringSettings.default.validate.toBool = true := by decide +kernel
  refine ⟨hvalid, hoptions, ((hscope .default).mp hmonitoring).1, ?_, ?_⟩
  · refine (hmade _ 0 .empty hoptions).mpr ⟨fun h => ?_, fun h => ?_⟩
    · obtain ⟨_, first, hfirst, _⟩ := h
      cases hfirst
    · obtain ⟨_, first, hfirst, _⟩ := h
      cases hfirst
  · have hfailed : ((start.returnedAlong 0 smallDefaults).any fun r => r.toOption.isNone) = true := by
      decide +kernel
    obtain ⟨result, hresult, hnone⟩ := List.any_eq_true.mp hfailed
    cases result with
    | ok r => cases hnone
    | error e =>
      exact ⟨e, hresult, (hnever smallDefaults 0 .default .store "main" e hvalid rfl hresult).1⟩

end Node

end NamespaceTopology
