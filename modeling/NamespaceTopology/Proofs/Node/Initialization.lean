import NamespaceTopology.Proofs.Node.Retries

set_option autoImplicit false

/-!
One registry for each initializer. However the calls on it interleave with everything else, one of them
builds at a time, at most one registry is ever built, and each call that succeeds gets it. As long as none
is built the next call starts afresh, as if it were the first one.
-/
namespace NamespaceTopology.Node

variable {a b i j : Nat} {n m : Node}

/-! ### Who builds -/

/-- A call waits for a first value, in the middle of building. -/
def Constructs (i a : Nat) (n : Node) : Prop := ∃ (x : Attempt) (remote : Remote) (deadline : Nat),
  n.attempts[a]? = some x ∧ x.initializer = i ∧ x.stage = .waiting remote deadline

def isCallOn (i a : Nat) (n : Node) : Bool := (n.attempts[a]?).any fun x => x.initializer = i

theorem exists_of_isCallOn (h : n.isCallOn i a = true) :
    ∃ x : Attempt, n.attempts[a]? = some x ∧ x.initializer = i := by
  obtain ⟨x, hx, hi⟩ := (Option.any_eq_true ..).mp h
  exact ⟨x, hx, of_decide_eq_true hi⟩

theorem Lined.constructs_head (hn : n.Lined) (h : n.Constructs i a) : ∃ y : Initializer,
    n.initializers[i]? = some y ∧ y.queue.head? = some a ∧ y.registry = none := by
  obtain ⟨x, remote, deadline, hx, rfl, hstage⟩ := h
  exact hn.waiting a x remote deadline hx hstage

/-- A turn of a call leaves the world alone once a registry stands, and while another call is building. -/
theorem world_turn (hn : n.Lined) {x : Attempt} (hx : n.attempts[a]? = some x)
    (h : (∃ r, n.registryOf x.initializer = some r) ∨
      ∃ b, b ≠ a ∧ n.Constructs x.initializer b) :
    (n.occur (.turn (.attempt a))).world = n.world := by
  -- So the call is not the one that stands first where no registry stands, nor is it alone there.
  have hblocked {y : Initializer} (hy : n.initializers[x.initializer]? = some y)
      (hr : y.registry = none) : y.queue.head? ≠ some a ∧ y.queue ≠ [] := by
    rcases h with ⟨r, hstands⟩ | ⟨b, hba, hbuilds⟩
    · rw [registryOf, Lines.registryOf_eq hy, hr] at hstands
      cases hstands
    · obtain ⟨z, hz, hfirst, _⟩ := hn.constructs_head hbuilds
      obtain rfl := Option.some.inj (hy.symm.trans hz)
      refine ⟨fun hhead => hba (Option.some.inj (hfirst.symm.trans hhead)), ?_⟩
      rintro hempty
      rw [hempty] at hfirst
      cases hfirst
  have hnotWaiting : x.stage.remote? = none := by
    cases hstage : x.stage with
    | waiting remote deadline =>
      obtain ⟨y, hy, hfirst, hr⟩ := hn.waiting a x remote deadline hx hstage
      exact absurd hfirst (hblocked hy hr).1
    | fresh | queued | finished _ | abandoned => rfl
  rw [world_occur_attempt]
  have hturned := turned_stepAttempt a n
  generalize n.stepAttempt a = k at hturned ⊢
  cases hturned with
  | stays | ends => rfl
  | queues _ _ _ _ => rfl
  | abandons hx' _ =>
    obtain rfl := Option.some.inj (hx.symm.trans hx')
    exact world_abandon hnotWaiting a x.initializer n
  | resumes hx' _ hstage =>
    obtain rfl := Option.some.inj (hx.symm.trans hx')
    rw [hstage] at hnotWaiting
    cases hnotWaiting
  | @takes z y m hx' hy hm =>
    obtain rfl := Option.some.inj (hx.symm.trans hx')
    have hnever (hr : y.registry = none) : False := by
      cases hm with
      | fresh _ hempty => exact (hblocked hy hr).2 hempty
      | queued _ hfirst => exact (hblocked hy hr).1 hfirst
    have hstep := turn_step a x.initializer y m
    generalize m.takeTurn a x.initializer y = k at hstep ⊢
    cases hstep with
    | stands _ => exact hm.world
    | invalid hr _ | unfollowed hr _ _ _ | concludes hr _ _ _ _ | awaits hr _ _ _ _ => exact (hnever hr).elim

/-! ### Along a run -/

def built? (i : Nat) (n : Node) : Event → Option Nat
  | .turn (.attempt a) =>
    if n.isCallOn i a && n.followers.length < (n.turn (.attempt a)).followers.length then
      some n.followers.length
    else none
  | _ => none

def returned? (i : Nat) (n : Node) : Event → Option (Except Error Nat)
  | .turn (.attempt a) =>
    if n.isCallOn i a && (n.result? a).isNone then (n.turn (.attempt a)).result? a else none
  | _ => none

def builtAlong (i : Nat) : Node → List Event → List Nat
  | _, [] => []
  | n, e :: es => (n.built? i e).toList ++ builtAlong i (n.occur e) es

def returnedAlong (i : Nat) : Node → List Event → List (Except Error Nat)
  | _, [] => []
  | n, e :: es => (n.returned? i e).toList ++ returnedAlong i (n.occur e) es

theorem built?_of_length_eq {e : Event} (h : (n.occur e).followers.length = n.followers.length)
    (i : Nat) : n.built? i e = none := by
  unfold built?
  split
  next a =>
    have hsame : (n.turn (.attempt a)).followers.length = n.followers.length := h
    simp [hsame]
  next => rfl

/-- A registry that stands at an initializer stood there before, or it has just been built where none
stood. -/
theorem Lined.registryOf_occur (hn : n.Lined) (e : Event) :
    (∀ j, (n.occur e).registryOf j = n.registryOf j ∧ n.built? j e = none) ∧
      (n.occur e).followers.length = n.followers.length ∨
    ∃ i, n.registryOf i = none ∧ (n.occur e).followers.length = n.followers.length + 1 ∧
      ∀ j, (n.occur e).registryOf j = (if i = j then some n.followers.length else n.registryOf j) ∧
        n.built? j e = if i = j then some n.followers.length else none := by
  rcases lines_occur hn e with hcomes | ⟨a, rfl, hturn⟩
  · obtain ⟨hfounded, hsame⟩ := hcomes.same
    exact Or.inl ⟨fun j => ⟨hsame j, built?_of_length_eq hfounded j⟩, hfounded⟩
  · rcases hturn.registries with ⟨hfounded, hsame⟩ | ⟨x, hx, hfounded, hnone, hnew⟩
    · exact Or.inl ⟨fun j => ⟨hsame j, built?_of_length_eq hfounded j⟩, hfounded⟩
    · refine Or.inr ⟨x.initializer, hnone, hfounded, fun j => ⟨hnew j, ?_⟩⟩
      have hx : n.attempts[a]? = some x := hx
      have hmore : (n.turn (.attempt a)).followers.length = n.followers.length + 1 := hfounded
      simp [built?, isCallOn, hx, hmore]

theorem Lined.toList_registryOf (hn : n.Lined) (i : Nat) (es : List Event) :
    ((n.run es).registryOf i).toList = (n.registryOf i).toList ++ n.builtAlong i es := by
  induction es generalizing n with
  | nil => exact (List.append_nil _).symm
  | cons e es ih =>
    change (((n.occur e).run es).registryOf i).toList = _
    rw [ih (hn.occur e), builtAlong, ← List.append_assoc]
    congr 1
    rcases hn.registryOf_occur e with ⟨hsame, _⟩ | ⟨j, hnone, _, hnew⟩
    · simp [hsame i]
    · by_cases hj : j = i
      · subst hj
        simp [hnew j, hnone]
      · simp [hnew i, hj]

theorem Lined.registryOf_run (hn : n.Lined) {r : Nat} (hr : n.registryOf i = some r) (es : List Event) :
    (n.run es).registryOf i = some r := by
  have htoList := hn.toList_registryOf i es
  rw [hr] at htoList
  cases hlater : (n.run es).registryOf i with
  | none =>
    rw [hlater] at htoList
    cases htoList
  | some s =>
    rw [hlater] at htoList
    exact congrArg some (List.cons.inj htoList).1

theorem Lined.exists_builder (hn : n.Lined) (es : List Event) {r : Nat}
    (hr : r < (n.run es).followers.length) (hnew : n.followers.length ≤ r) :
    ∃ i, r ∈ n.builtAlong i es := by
  induction es generalizing n with
  | nil => exact absurd hr (Nat.not_lt.mpr hnew)
  | cons e es ih =>
    have hrun : r < ((n.occur e).run es).followers.length := hr
    have hlater (h : (n.occur e).followers.length ≤ r) : ∃ i, r ∈ n.builtAlong i (e :: es) := by
      obtain ⟨i, hi⟩ := ih (hn.occur e) hrun h
      exact ⟨i, List.mem_append_right _ hi⟩
    rcases hn.registryOf_occur e with ⟨_, hlength⟩ | ⟨i, _, hlength, hbuilt⟩
    · exact hlater (by omega)
    · rcases Nat.lt_or_eq_of_le hnew with hlt | rfl
      · exact hlater (by omega)
      · refine ⟨i, List.mem_append_left _ ?_⟩
        simp [hbuilt i]

theorem result?_eq_some {result : Except Error Nat} (h : n.result? a = some result) :
    ∃ x : Attempt, n.attempts[a]? = some x ∧ x.stage = .finished result := by
  unfold result? at h
  split at h
  next hstage =>
    obtain ⟨x, hx, hfinished⟩ := Option.map_eq_some_iff.mp hstage
    obtain rfl := Option.some.inj h
    exact ⟨x, hx, hfinished⟩
  next => cases h

theorem result?_of_stage {x : Attempt} {result : Except Error Nat} (hx : n.attempts[a]? = some x)
    (hstage : x.stage = .finished result) : n.result? a = some result := by
  simp [result?, hx, hstage]

theorem exists_error {result : Option (Except Error Nat)}
    (h : (result.any fun r => r.toOption.isNone) = true) : ∃ cause, result = some (.error cause) := by
  cases result with
  | none => cases h
  | some r =>
    cases r with
    | ok r => cases h
    | error cause => exact ⟨cause, rfl⟩

/-- What a call returns is the registry that stands at its initializer, or an error and none stands. -/
theorem Lined.returned (hn : n.Lined) {e : Event} {result : Except Error Nat}
    (h : n.returned? i e = some result) :
    (∀ r, result = .ok r → (n.occur e).registryOf i = some r) ∧
    ∀ cause, result = .error cause → (n.occur e).registryOf i = none := by
  unfold returned? at h
  split at h
  next a =>
    split at h
    next hcall =>
      obtain ⟨hcall, hbefore⟩ : n.isCallOn i a = true ∧ n.result? a = none := by simpa using hcall
      obtain ⟨x, hx, rfl⟩ := exists_of_isCallOn hcall
      obtain ⟨x', hx', hstage⟩ := result?_eq_some h
      have hturn : n.lines.Turn a (n.occur (.turn (.attempt a))).lines := turn_stepAttempt hn a
      obtain ⟨z, hz, hinitializer, _⟩ := hturn.attempt hx
      obtain rfl := Option.some.inj (hz.symm.trans hx')
      rw [← hinitializer]
      constructor
      · rintro r rfl
        exact (hn.occur (.turn (.attempt a))).answered a z r hx' hstage
      · rintro cause rfl
        refine hturn.failed hx' hstage fun w hw hfinished => ?_
        rw [result?_of_stage hw hfinished] at hbefore
        cases hbefore
    next => cases h
  next => cases h

theorem Lined.registryOf_of_returned (hn : n.Lined) {r : Nat} (es : List Event)
    (h : .ok r ∈ n.returnedAlong i es) : (n.run es).registryOf i = some r := by
  induction es generalizing n with
  | nil => cases h
  | cons e es ih =>
    rcases List.mem_append.mp h with hnow | hlater
    · have hreturned := (hn.returned (Option.mem_toList.mp hnow)).1 r rfl
      exact (hn.occur e).registryOf_run hreturned es
    · exact ih (hn.occur e) hlater

/-- A line never gets stuck: its first call is building, or it is its turn, or it is given up. -/
theorem Lined.first (hn : n.Lined) {y : Initializer} (hy : n.initializers[i]? = some y)
    (hfirst : y.queue.head? = some a) : n.Constructs i a ∨ n.HasTurn i a ∨
      ∃ x : Attempt, n.attempts[a]? = some x ∧ x.cancelled = true := by
  obtain ⟨x, hx, hi, hline⟩ := hn.queued i y a hy (List.mem_of_mem_head? hfirst)
  have hx : n.attempts[a]? = some x := hx
  cases hstage : x.stage with
  | waiting remote deadline => exact Or.inl ⟨x, remote, deadline, hx, hi, hstage⟩
  | queued =>
    cases hcancelled : x.cancelled with
    | true => exact Or.inr (Or.inr ⟨x, hx, hcancelled⟩)
    | false => exact Or.inr (Or.inl ⟨x, y, hx, hi, hcancelled, hy, Or.inr ⟨hstage, hfirst⟩⟩)
  | fresh | finished _ | abandoned =>
    rw [hstage] at hline
    cases hline

theorem result?_of_hasTurn {r : Nat} (h : n.HasTurn i a) (hr : n.registryOf i = some r) :
    (n.occur (.turn (.attempt a))).result? a = some (.ok r) := by
  obtain ⟨y, hy, hstands⟩ := Option.bind_eq_some_iff.mp hr
  obtain ⟨x, m, hx, _, _, hm, hstep⟩ := stepAttempt_of_hasTurn h hy
  have hanswered : (n.occur (.turn (.attempt a))).attempts[a]? =
      some { x with stage := .finished (.ok r) } := by
    rw [attempts_occur_attempt, hstep]
    simp [takeTurn, hstands, endAttempt, endTask, modifyInitializer, modifyAttempt, hm.attempts, hx]
  exact result?_of_stage hanswered rfl

/-- Of the calls on an initializer one builds at a time, and meanwhile the turns of the others change
nothing in the world. At most one registry is ever built for it, whatever happens, and every registry is
built for one initializer. Each call that succeeds returns that registry, and once it stands each call
whose turn it is does so at once, without touching the world. A call that fails leaves none; and as long as
there is none, the call whose turn it is goes the way of the first call on a new initializer, whatever
happens around it. -/
theorem one_registry_each (es : List Event) (i : Nat) :
    let n := start.run es
    (∀ a b, n.Constructs i a → n.Constructs i b → a = b) ∧
    (∀ a b, n.Constructs i a → n.isCallOn i b = true → b ≠ a →
      (n.occur (.turn (.attempt b))).world = n.world) ∧
    start.builtAlong i es = (n.registryOf i).toList ∧
    (∀ r, r < n.followers.length → ∃ j, start.builtAlong j es = [r]) ∧
    (∀ r, .ok r ∈ start.returnedAlong i es → start.builtAlong i es = [r]) ∧
    (∀ r, start.builtAlong i es = [r] → ∀ a, n.isCallOn i a = true →
      (n.occur (.turn (.attempt a))).world = n.world ∧
      (n.HasTurn i a → (n.occur (.turn (.attempt a))).result? a = some (.ok r))) ∧
    (∀ e cause, n.returned? i e = some (.error cause) → start.builtAlong i (es ++ [e]) = []) ∧
    (start.builtAlong i es = [] → ∀ a, n.HasTurn i a → n.GoesAsFirst i a) ∧
    (∀ y a, n.initializers[i]? = some y → y.queue.head? = some a →
      n.Constructs i a ∨ n.HasTurn i a ∨
        ∃ x : Attempt, n.attempts[a]? = some x ∧ x.cancelled = true) := by
  intro n
  have hn : n.Lined := lined_start.run es
  have hbuilt (j : Nat) (es : List Event) :
      start.builtAlong j es = ((start.run es).registryOf j).toList :=
    (lined_start.toList_registryOf j es).symm
  refine ⟨?_, ?_, hbuilt i es, ?_, ?_, ?_, ?_, ?_, fun y a hy hfirst => hn.first hy hfirst⟩
  · intro a b ha hb
    obtain ⟨y, hy, hfirst, _⟩ := hn.constructs_head ha
    obtain ⟨z, hz, hfirst', _⟩ := hn.constructs_head hb
    obtain rfl := Option.some.inj (hy.symm.trans hz)
    exact Option.some.inj (hfirst.symm.trans hfirst')
  · intro a b ha hb hba
    obtain ⟨x, hx, rfl⟩ := exists_of_isCallOn hb
    exact world_turn hn hx (Or.inr ⟨a, Ne.symm hba, ha⟩)
  · intro r hr
    obtain ⟨j, hj⟩ := lined_start.exists_builder es hr (Nat.zero_le r)
    refine ⟨j, ?_⟩
    rw [hbuilt] at hj ⊢
    rw [Option.mem_toList.mp hj]
    rfl
  · intro r hr
    rw [hbuilt, lined_start.registryOf_of_returned es hr]
    rfl
  · intro r hr a ha
    have hstands : n.registryOf i = some r := by
      rw [hbuilt] at hr
      exact Option.toList_eq_singleton_iff.mp hr
    obtain ⟨x, hx, rfl⟩ := exists_of_isCallOn ha
    exact ⟨world_turn hn hx (Or.inl ⟨r, hstands⟩), fun hturn => result?_of_hasTurn hturn hstands⟩
  · intro e cause he
    have hnone := (hn.returned he).2 cause rfl
    rw [hbuilt, run_append]
    exact congrArg Option.toList hnone
  · intro hnone a hturn
    refine goesAsFirst hturn ?_
    rw [hbuilt, Option.toList_eq_nil_iff] at hnone
    exact hnone

/-- Of three calls the first one waits for a value in vain, the second one finds it, and the third one
comes to its turn when the registry has been closed. -/
def smallCalls : List Event :=
  [.addInitializer ⟨some .store, "namespaces", Span.ofSeconds 1, "app", Span.ofSeconds 60, "main"⟩,
   .call 0, .call 0, .call 0, .turn (.attempt 0), .turn (.attempt 1), .turn (.attempt 2),
   .pass 1000, .turn (.attempt 0), .store (.set "namespaces" (smallDocument 97)), .turn (.attempt 1),
   .close (.dynamic 0)]

theorem one_registry_each_small :
    (∃ cause, (start.run (smallCalls.take 8)).returned? 0 (.turn (.attempt 0)) =
      some (.error cause)) ∧
    start.builtAlong 0 (smallCalls.take 8 ++ [.turn (.attempt 0)]) = [] ∧
    start.builtAlong 0 smallCalls = [0] ∧ (start.run smallCalls).HasTurn 0 2 ∧
    ((start.run smallCalls).occur (.turn (.attempt 2))).result? 2 = some (.ok 0) := by
  obtain ⟨_, _, _, _, _, _, hfailed, _⟩ := one_registry_each (smallCalls.take 8) 0
  obtain ⟨_, _, _, _, _, hserved, _⟩ := one_registry_each smallCalls 0
  have hbuilt : start.builtAlong 0 smallCalls = [0] := by
    decide +kernel
  have hturn : (start.run smallCalls).HasTurn 0 2 := by
    decide +kernel
  obtain ⟨cause, hresult⟩ :
      ∃ cause, (start.run (smallCalls.take 8)).returned? 0 (.turn (.attempt 0)) =
        some (.error cause) :=
    exists_error (by decide +kernel)
  exact ⟨⟨cause, hresult⟩, hfailed _ cause hresult, hbuilt, hturn,
    (hserved 0 hbuilt 2 (by decide +kernel)).2 hturn⟩

end NamespaceTopology.Node
