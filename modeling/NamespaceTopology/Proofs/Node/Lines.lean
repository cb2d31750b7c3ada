import NamespaceTopology.Node.Basic

set_option autoImplicit false

/-!
The lines of a node: each initializer has one, and the calls on it stand there. Only the first of a line
builds a registry, waiting for a value if need be, and only as long as none stands.
-/
namespace NamespaceTopology

def Stage.inLine : Stage → Bool
  | .queued | .waiting _ _ => true
  | .fresh | .finished _ | .abandoned => false

def Stage.isOver : Stage → Bool
  | .finished _ | .abandoned => true
  | .fresh | .queued | .waiting _ _ => false

namespace Node

/-- The calls, the initializers with their lines, and how many registries have been founded. -/
structure Lines where
  attempts : List Attempt
  initializers : List Initializer
  founded : Nat

namespace Lines

def mark (a : Nat) (stage : Stage) (l : Lines) : Lines :=
  { l with attempts := l.attempts.modify a fun x => { x with stage } }

def join (a i : Nat) (l : Lines) : Lines :=
  { l with initializers := l.initializers.modify i fun y => { y with queue := y.queue ++ [a] } }

def leave (a i : Nat) (stage : Stage) (l : Lines) : Lines :=
  { l.mark a stage with initializers := l.initializers.modify i fun y =>
    { y with queue := y.queue.filter fun b => b ≠ a } }

def found (i : Nat) (l : Lines) : Lines where
  attempts := l.attempts
  initializers := l.initializers.modify i fun y => { y with registry := some l.founded }
  founded := l.founded + 1

def registryOf (i : Nat) (l : Lines) : Option Nat := (l.initializers[i]?).bind Initializer.registry

/-- What becomes of a call that builds: it waits, or it fails, or it has founded a registry. -/
inductive Built (a i : Nat) (l : Lines) : Lines → Prop where
  | waits (remote : Remote) (deadline : Nat) : Built a i l (l.mark a (.waiting remote deadline))
  | fails (e : Error) : Built a i l (l.leave a i (.finished (.error e)))
  | founds : Built a i l ((l.found i).leave a i (.finished (.ok l.founded)))

inductive Enters (a : Nat) (l : Lines) : Lines → Prop where
  | stays : Enters a l l
  | queues {x : Attempt} {y : Initializer} (hx : l.attempts[a]? = some x) (hstage : x.stage = .fresh)
      (hy : l.initializers[x.initializer]? = some y) :
      Enters a l ((l.join a x.initializer).mark a .queued)

/-- A call leaves its line, with the registry that stands or without, or it builds as the first one. -/
inductive Move (a : Nat) (l : Lines) : Lines → Prop where
  | abandons {x : Attempt} (hx : l.attempts[a]? = some x) : Move a l (l.leave a x.initializer .abandoned)
  | answers {x : Attempt} {y : Initializer} {r : Nat} (hx : l.attempts[a]? = some x)
      (hline : x.stage.inLine = true) (hy : l.initializers[x.initializer]? = some y)
      (hr : y.registry = some r) : Move a l (l.leave a x.initializer (.finished (.ok r)))
  | builds {x : Attempt} {y : Initializer} {l' : Lines} (hx : l.attempts[a]? = some x)
      (hline : x.stage.inLine = true) (hy : l.initializers[x.initializer]? = some y)
      (hfirst : y.queue.head? = some a) (hr : y.registry = none) (h : l.Built a x.initializer l') :
      Move a l l'

def Turn (a : Nat) (l l' : Lines) : Prop := ∃ k, l.Enters a k ∧ (l' = k ∨ k.Move a l')

/-- Calls and initializers come, and calls are given up, but nobody moves. -/
inductive Comes (l : Lines) : Lines → Prop where
  | stays : Comes l l
  | calls (i : Nat) : Comes l { l with attempts := l.attempts ++ [⟨i, .fresh, false⟩] }
  | cancels (a : Nat) :
      Comes l { l with attempts := l.attempts.modify a fun x => { x with cancelled := true } }
  | opens (o : DynamicOptions) : Comes l { l with initializers := l.initializers ++ [⟨o, none, []⟩] }

/-! ### Elements -/

theorem getElem?_modify_split {α : Type} {xs : List α} {i j : Nat} {f : α → α} {y : α}
    (h : (xs.modify i f)[j]? = some y) :
    (j = i ∧ ∃ x, xs[i]? = some x ∧ y = f x) ∨ (j ≠ i ∧ xs[j]? = some y) := by
  by_cases hij : i = j
  · subst hij
    rw [List.getElem?_modify_eq] at h
    obtain ⟨x, hx, rfl⟩ := Option.map_eq_some_iff.mp h
    exact Or.inl ⟨rfl, x, hx, rfl⟩
  · rw [List.getElem?_modify_ne _ _ hij] at h
    exact Or.inr ⟨Ne.symm hij, h⟩

theorem getElem?_concat_split {α : Type} {xs : List α} {j : Nat} {x y : α}
    (h : (xs ++ [x])[j]? = some y) : xs[j]? = some y ∨ (j = xs.length ∧ y = x) := by
  rw [List.getElem?_append] at h
  split at h
  · exact Or.inl h
  next hge =>
    obtain ⟨hlt, heq⟩ := List.getElem?_eq_some_iff.mp h
    simp only [List.length_singleton] at hlt
    exact Or.inr ⟨by omega, by simpa using heq.symm⟩

theorem getElem?_attempts_mark {a : Nat} {x : Attempt} (stage : Stage) {l : Lines}
    (hx : l.attempts[a]? = some x) : (l.mark a stage).attempts[a]? = some { x with stage } := by
  simp [mark, hx]

theorem registryOf_eq {i : Nat} {l : Lines} {y : Initializer} (hy : l.initializers[i]? = some y) :
    l.registryOf i = y.registry := by
  rw [registryOf, hy, Option.bind_some]

theorem registryOf_modify {f : Initializer → Initializer} (hf : ∀ y, (f y).registry = y.registry)
    (i j : Nat) (l : Lines) :
    registryOf j { l with initializers := l.initializers.modify i f } = l.registryOf j := by
  simp only [registryOf, List.getElem?_modify]
  cases l.initializers[j]? with
  | none => rfl
  | some y =>
    simp only [Option.map_eq_map, Option.map_some, Option.bind_some]
    split
    · exact hf y
    · rfl

theorem registryOf_leave (a i j : Nat) (stage : Stage) (l : Lines) :
    (l.leave a i stage).registryOf j = l.registryOf j := by
  refine registryOf_modify ?_ i j (l.mark a stage)
  intro y
  rfl

theorem registryOf_join (a i j : Nat) (l : Lines) : (l.join a i).registryOf j = l.registryOf j := by
  refine registryOf_modify ?_ i j l
  intro y
  rfl

theorem registryOf_found_self {i : Nat} {l : Lines} {y : Initializer}
    (hy : l.initializers[i]? = some y) : (l.found i).registryOf i = some l.founded := by
  simp [registryOf, found, hy]

theorem registryOf_found_other {i j : Nat} (hne : i ≠ j) (l : Lines) :
    (l.found i).registryOf j = l.registryOf j := by
  rw [registryOf, found, List.getElem?_modify_ne _ _ hne]
  rfl

theorem leave_mark (a i : Nat) (stage stage' : Stage) (l : Lines) :
    (l.mark a stage).leave a i stage' = l.leave a i stage' := by
  simp only [leave, mark, List.modify_modify_eq]
  rfl

/-- It makes no difference to a call that builds how far it had come. -/
theorem Built.of_mark {a i : Nat} {l l' : Lines} (h : l.Built a i l') (stage : Stage) :
    (l.mark a stage).Built a i l' := by
  cases h with
  | waits remote deadline =>
    have hmark : l.mark a (.waiting remote deadline) =
        (l.mark a stage).mark a (.waiting remote deadline) := by
      simp only [mark, List.modify_modify_eq]
      rfl
    rw [hmark]
    exact .waits remote deadline
  | fails e =>
    rw [← leave_mark a i stage]
    exact .fails e
  | founds =>
    rw [← leave_mark a i stage]
    exact .founds

/-! ### Order -/

/-- Everybody in a line is a call on its initializer that is not over. The one that waits for a value is
the first one and has no registry yet; who was answered with a registry got the one that stands there. -/
structure Orderly (l : Lines) : Prop where
  queued : ∀ (i : Nat) (y : Initializer) (a : Nat), l.initializers[i]? = some y → a ∈ y.queue →
    ∃ x : Attempt, l.attempts[a]? = some x ∧ x.initializer = i ∧ x.stage.inLine = true
  waiting : ∀ (a : Nat) (x : Attempt) (remote : Remote) (deadline : Nat), l.attempts[a]? = some x →
    x.stage = .waiting remote deadline → ∃ y : Initializer, l.initializers[x.initializer]? = some y ∧
      y.queue.head? = some a ∧ y.registry = none
  answered : ∀ (a : Nat) (x : Attempt) (r : Nat), l.attempts[a]? = some x →
    x.stage = .finished (.ok r) → l.registryOf x.initializer = some r

theorem Orderly.calls {l : Lines} (hl : l.Orderly) (i : Nat) :
    Orderly { l with attempts := l.attempts ++ [⟨i, .fresh, false⟩] } := by
  refine ⟨?_, ?_, ?_⟩
  · intro j y a hy ha
    obtain ⟨x, hx, hj, hline⟩ := hl.queued j y a hy ha
    exact ⟨x, (List.getElem?_append_left (List.getElem?_eq_some_iff.mp hx).1).trans hx, hj, hline⟩
  · intro a x remote deadline hx hstage
    rcases getElem?_concat_split hx with hold | ⟨_, rfl⟩
    · exact hl.waiting a x remote deadline hold hstage
    · cases hstage
  · intro a x r hx hstage
    rcases getElem?_concat_split hx with hold | ⟨_, rfl⟩
    · exact hl.answered a x r hold hstage
    · cases hstage

theorem Orderly.cancels {l : Lines} (hl : l.Orderly) (a : Nat) :
    Orderly { l with attempts := l.attempts.modify a fun x => { x with cancelled := true } } := by
  -- Only the mark of being given up is new.
  have hsame {b : Nat} {x' : Attempt} (hx' : (l.attempts.modify a fun x =>
      { x with cancelled := true })[b]? = some x') : ∃ x : Attempt, l.attempts[b]? = some x ∧
        x'.initializer = x.initializer ∧ x'.stage = x.stage := by
    rcases getElem?_modify_split hx' with ⟨rfl, x, hx, rfl⟩ | ⟨_, hx⟩
    · exact ⟨x, hx, rfl, rfl⟩
    · exact ⟨x', hx, rfl, rfl⟩
  refine ⟨?_, ?_, ?_⟩
  · intro j y b hy hb
    obtain ⟨x, hx, hj, hline⟩ := hl.queued j y b hy hb
    refine ⟨if a = b then { x with cancelled := true } else x, ?_, ?_, ?_⟩
    · simp [List.getElem?_modify, hx]
    · split <;> exact hj
    · split <;> exact hline
  · intro b x' remote deadline hx' hstage
    obtain ⟨x, hx, hinitializer, hsame⟩ := hsame hx'
    rw [hinitializer]
    exact hl.waiting b x remote deadline hx (hsame.symm.trans hstage)
  · intro b x' r hx' hstage
    obtain ⟨x, hx, hinitializer, hsame⟩ := hsame hx'
    rw [hinitializer]
    exact hl.answered b x r hx (hsame.symm.trans hstage)

theorem Orderly.opens {l : Lines} (hl : l.Orderly) (o : DynamicOptions) :
    Orderly { l with initializers := l.initializers ++ [⟨o, none, []⟩] } := by
  have hold {j : Nat} {y : Initializer} (hy : l.initializers[j]? = some y) :
      (l.initializers ++ [⟨o, none, []⟩])[j]? = some y :=
    (List.getElem?_append_left (List.getElem?_eq_some_iff.mp hy).1).trans hy
  refine ⟨?_, ?_, ?_⟩
  · intro j y a hy ha
    rcases getElem?_concat_split hy with hold | ⟨_, rfl⟩
    · exact hl.queued j y a hold ha
    · cases ha
  · intro a x remote deadline hx hstage
    obtain ⟨y, hy, hfirst, hr⟩ := hl.waiting a x remote deadline hx hstage
    exact ⟨y, hold hy, hfirst, hr⟩
  · intro a x r hx hstage
    obtain ⟨y, hy, hr⟩ := Option.bind_eq_some_iff.mp (hl.answered a x r hx hstage)
    exact (registryOf_eq (hold hy)).trans hr

theorem Orderly.comes {l l' : Lines} (hl : l.Orderly) (h : l.Comes l') : l'.Orderly := by
  cases h with
  | stays => exact hl
  | calls i => exact hl.calls i
  | cancels a => exact hl.cancels a
  | opens o => exact hl.opens o

theorem Orderly.enters {a : Nat} {l l' : Lines} (hl : l.Orderly) (h : l.Enters a l') : l'.Orderly := by
  cases h with
  | stays => exact hl
  | @queues x y hx hstage hy =>
    refine ⟨?_, ?_, ?_⟩
    · intro j y' b hy' hb
      by_cases hba : b = a
      · subst hba
        refine ⟨_, getElem?_attempts_mark .queued hx, ?_, rfl⟩
        rcases getElem?_modify_split hy' with ⟨rfl, _⟩ | ⟨_, hy'⟩
        · rfl
        · obtain ⟨z, hz, hj, hline⟩ := hl.queued j y' b hy' hb
          obtain rfl := Option.some.inj (hx.symm.trans hz)
          exact hj
      · obtain ⟨z, hz, hj, hline⟩ : ∃ z : Attempt, l.attempts[b]? = some z ∧ z.initializer = j ∧
            z.stage.inLine = true := by
          rcases getElem?_modify_split hy' with ⟨rfl, w, hw, rfl⟩ | ⟨_, hy'⟩
          · have hold : b ∈ w.queue := by simpa [hba] using hb
            exact hl.queued _ w b hw hold
          · exact hl.queued j y' b hy' hb
        exact ⟨z, (List.getElem?_modify_ne _ _ (Ne.symm hba)).trans hz, hj, hline⟩
    · intro b x' remote deadline hx' hwaits
      rcases getElem?_modify_split hx' with ⟨_, w, _, rfl⟩ | ⟨_, hold⟩
      · cases hwaits
      · obtain ⟨z, hz, hfirst, hr⟩ := hl.waiting b x' remote deadline hold hwaits
        by_cases hi : x.initializer = x'.initializer
        · refine ⟨{ z with queue := z.queue ++ [a] }, ?_, ?_, hr⟩
          · simp [mark, join, hi, hz]
          · simp [List.head?_append, hfirst]
        · exact ⟨z, (List.getElem?_modify_ne _ _ hi).trans hz, hfirst, hr⟩
    · intro b x' r hx' hanswered
      rcases getElem?_modify_split hx' with ⟨_, w, _, rfl⟩ | ⟨_, hold⟩
      · cases hanswered
      · exact (registryOf_join a _ _ l).trans (hl.answered b x' r hold hanswered)

theorem head?_filter_ne {a b : Nat} {q : List Nat} (hne : b ≠ a) (h : q.head? = some b) :
    (q.filter fun c => c ≠ a).head? = some b := by
  cases q with
  | nil => cases h
  | cons c cs =>
    obtain rfl := Option.some.inj h
    simp [hne]

/-- How the lines are when a call that is over has left its own, and `f` has become of the initializer. If a
registry is new there, nobody has waited or been answered before. -/
structure Left (a : Nat) (x : Attempt) (stage : Stage) (f : Initializer → Initializer) (l l' : Lines) :
    Prop where
  call : l.attempts[a]? = some x
  gone : stage.inLine = false
  attempts : l'.attempts = (l.mark a stage).attempts
  initializers : l'.initializers = l.initializers.modify x.initializer f
  queue : ∀ y, (f y).queue = y.queue.filter fun b => b ≠ a
  registry : ∀ y, l.initializers[x.initializer]? = some y →
    (f y).registry = y.registry ∨ (y.queue.head? = some a ∧ y.registry = none)
  result : ∀ r, stage = .finished (.ok r) → l'.registryOf x.initializer = some r

section

variable {a : Nat} {x : Attempt} {stage : Stage} {f : Initializer → Initializer} {l l' : Lines}

theorem Left.initializer_self (h : Left a x stage f l l') :
    l'.initializers[x.initializer]? = (l.initializers[x.initializer]?).map f := by
  rw [h.initializers, List.getElem?_modify_eq]
  rfl

theorem Left.initializer_other (h : Left a x stage f l l') {j : Nat} (hj : x.initializer ≠ j) :
    l'.initializers[j]? = l.initializers[j]? := by
  rw [h.initializers, List.getElem?_modify_ne _ _ hj]

theorem Left.attempt_other (h : Left a x stage f l l') {b : Nat} (hb : b ≠ a) :
    l'.attempts[b]? = l.attempts[b]? := by
  rw [h.attempts, mark, List.getElem?_modify_ne _ _ (Ne.symm hb)]

theorem Left.attempt_cases (h : Left a x stage f l l') {b : Nat} {x' : Attempt}
    (hx' : l'.attempts[b]? = some x') :
    (b = a ∧ x'.initializer = x.initializer ∧ x'.stage = stage) ∨
      (b ≠ a ∧ l.attempts[b]? = some x') := by
  rw [h.attempts] at hx'
  refine (getElem?_modify_split hx').imp_left fun ⟨hb, w, hw, hx'⟩ => ?_
  obtain rfl := Option.some.inj (h.call.symm.trans hw)
  exact ⟨hb, by rw [hx'], by rw [hx']⟩

/-- Who stands in a line now is another call, and stood there before. -/
theorem Left.queue_of (h : Left a x stage f l l') (hl : l.Orderly) {j b : Nat} {y' : Initializer}
    (hy' : l'.initializers[j]? = some y') (hb : b ∈ y'.queue) :
    b ≠ a ∧ ∃ y, l.initializers[j]? = some y ∧ b ∈ y.queue := by
  by_cases hj : x.initializer = j
  · subst hj
    rw [h.initializer_self] at hy'
    obtain ⟨y, hy, rfl⟩ := Option.map_eq_some_iff.mp hy'
    rw [h.queue] at hb
    obtain ⟨hmem, hne⟩ := List.mem_filter.mp hb
    exact ⟨by simpa using hne, y, hy, hmem⟩
  · rw [h.initializer_other hj] at hy'
    refine ⟨?_, y', hy', hb⟩
    rintro rfl
    obtain ⟨z, hz, hzj, _⟩ := hl.queued j y' b hy' hb
    obtain rfl := Option.some.inj (h.call.symm.trans hz)
    exact hj hzj

/-- Another call that is the first of its line and waits for a registry does so as before. -/
theorem Left.first_of (h : Left a x stage f l l') {j b : Nat} {y : Initializer} (hba : b ≠ a)
    (hy : l.initializers[j]? = some y) (hfirst : y.queue.head? = some b) (hr : y.registry = none) :
    ∃ y', l'.initializers[j]? = some y' ∧ y'.queue.head? = some b ∧ y'.registry = none := by
  by_cases hj : x.initializer = j
  · subst hj
    refine ⟨f y, by rw [h.initializer_self, hy]; rfl, ?_, ?_⟩
    · rw [h.queue]
      exact head?_filter_ne hba hfirst
    · rcases h.registry y hy with hsame | ⟨hhead, _⟩
      · exact hsame.trans hr
      · exact absurd (Option.some.inj (hfirst.symm.trans hhead)) hba
  · exact ⟨y, (h.initializer_other hj).trans hy, hfirst, hr⟩

/-- A registry that stands goes on standing. -/
theorem Left.registryOf (h : Left a x stage f l l') {j r : Nat} (hr : l.registryOf j = some r) :
    l'.registryOf j = some r := by
  by_cases hj : x.initializer = j
  · subst hj
    obtain ⟨y, hy, hr⟩ := Option.bind_eq_some_iff.mp hr
    rcases h.registry y hy with hsame | ⟨_, hnone⟩
    · rw [Lines.registryOf, h.initializer_self, hy]
      exact hsame.trans hr
    · rw [hnone] at hr
      cases hr
  · rw [Lines.registryOf, h.initializer_other hj]
    exact hr

theorem Orderly.left (hl : l.Orderly) (h : Left a x stage f l l') : l'.Orderly := by
  refine ⟨?_, ?_, ?_⟩
  · intro j y' b hy' hb
    obtain ⟨hba, y, hy, hmem⟩ := h.queue_of hl hy' hb
    obtain ⟨z, hz, hj, hline⟩ := hl.queued j y b hy hmem
    exact ⟨z, (h.attempt_other hba).trans hz, hj, hline⟩
  · intro b x' remote deadline hx' hwaits
    rcases h.attempt_cases hx' with ⟨_, _, hstage⟩ | ⟨hba, hold⟩
    · have hline : x'.stage.inLine = false := hstage ▸ h.gone
      rw [hwaits] at hline
      cases hline
    · obtain ⟨y, hy, hfirst, hr⟩ := hl.waiting b x' remote deadline hold hwaits
      exact h.first_of hba hy hfirst hr
  · intro b x' r hx' hanswered
    rcases h.attempt_cases hx' with ⟨_, hinitializer, hstage⟩ | ⟨_, hold⟩
    · rw [hinitializer]
      exact h.result r (hstage.symm.trans hanswered)
    · exact h.registryOf (hl.answered b x' r hold hanswered)

end

theorem Orderly.leave {a : Nat} {x : Attempt} {stage : Stage} {l : Lines} (hl : l.Orderly)
    (hx : l.attempts[a]? = some x) (hline : stage.inLine = false)
    (hok : ∀ r, stage = .finished (.ok r) → l.registryOf x.initializer = some r) :
    (l.leave a x.initializer stage).Orderly := by
  refine hl.left (f := fun y => { y with queue := y.queue.filter fun b => b ≠ a })
    ⟨hx, hline, rfl, rfl, fun _ => rfl, fun _ _ => Or.inl rfl, fun r hr => ?_⟩
  rw [registryOf_leave]
  exact hok r hr

/-- The first of a line where no registry stands goes on to wait for a value. -/
theorem Orderly.waits {a : Nat} {x : Attempt} {y : Initializer} {l : Lines} (hl : l.Orderly)
    (hx : l.attempts[a]? = some x) (hy : l.initializers[x.initializer]? = some y)
    (hfirst : y.queue.head? = some a) (hr : y.registry = none) (remote : Remote) (deadline : Nat) :
    (l.mark a (.waiting remote deadline)).Orderly := by
  have hcases {b : Nat} {x' : Attempt} (hx' : (l.mark a (.waiting remote deadline)).attempts[b]? =
      some x') : (b = a ∧ x' = { x with stage := .waiting remote deadline }) ∨
        (b ≠ a ∧ l.attempts[b]? = some x') := by
    refine (getElem?_modify_split hx').imp_left fun ⟨hb, w, hw, hx'⟩ => ?_
    obtain rfl := Option.some.inj (hx.symm.trans hw)
    exact ⟨hb, hx'⟩
  refine ⟨?_, ?_, ?_⟩
  · intro j y' b hy' hb
    obtain ⟨z, hz, hj, hline⟩ := hl.queued j y' b hy' hb
    by_cases hba : b = a
    · subst hba
      obtain rfl := Option.some.inj (hx.symm.trans hz)
      exact ⟨_, getElem?_attempts_mark _ hx, hj, rfl⟩
    · exact ⟨z, (List.getElem?_modify_ne _ _ (Ne.symm hba)).trans hz, hj, hline⟩
  · intro b x' remote' deadline' hx' hwaits
    rcases hcases hx' with ⟨rfl, rfl⟩ | ⟨_, hold⟩
    · exact ⟨y, hy, hfirst, hr⟩
    · exact hl.waiting b x' remote' deadline' hold hwaits
  · intro b x' r hx' hanswered
    rcases hcases hx' with ⟨_, rfl⟩ | ⟨_, hold⟩
    · cases hanswered
    · exact hl.answered b x' r hold hanswered

theorem Orderly.built {a : Nat} {x : Attempt} {y : Initializer} {l l' : Lines} (hl : l.Orderly)
    (hx : l.attempts[a]? = some x) (hy : l.initializers[x.initializer]? = some y)
    (hfirst : y.queue.head? = some a) (hr : y.registry = none) (h : l.Built a x.initializer l') :
    l'.Orderly := by
  cases h with
  | fails e => exact hl.leave hx rfl fun r hr => by cases hr
  | founds =>
    refine hl.left (f := fun y =>
      { y with registry := some l.founded, queue := y.queue.filter fun b => b ≠ a })
      ⟨hx, rfl, rfl, ?_, fun _ => rfl, fun z hz => Or.inr ?_, fun r hr => ?_⟩
    · simp only [Lines.leave, found, List.modify_modify_eq]
      rfl
    · obtain rfl := Option.some.inj (hy.symm.trans hz)
      exact ⟨hfirst, hr⟩
    · obtain rfl : l.founded = r := by simpa using hr
      rw [registryOf_leave]
      exact registryOf_found_self hy
  | waits remote deadline => exact hl.waits hx hy hfirst hr remote deadline

theorem Orderly.move {a : Nat} {l l' : Lines} (hl : l.Orderly) (h : l.Move a l') : l'.Orderly := by
  cases h with
  | abandons hx => exact hl.leave hx rfl fun r hr => by cases hr
  | answers hx _ hy hr =>
    refine hl.leave hx rfl fun s hs => ?_
    obtain rfl := Except.ok.inj (Stage.finished.inj hs)
    exact (registryOf_eq hy).trans hr
  | builds hx _ hy hfirst hr h => exact hl.built hx hy hfirst hr h

theorem Orderly.turn {a : Nat} {l l' : Lines} (hl : l.Orderly) (h : l.Turn a l') : l'.Orderly := by
  obtain ⟨k, hk, rfl | hmove⟩ := h
  · exact hl.enters hk
  · exact (hl.enters hk).move hmove

/-! ### What a turn changes -/

theorem Comes.same {l l' : Lines} (h : l.Comes l') :
    l'.founded = l.founded ∧ ∀ j, l'.registryOf j = l.registryOf j := by
  cases h with
  | stays | calls _ | cancels _ => exact ⟨rfl, fun _ => rfl⟩
  | opens o =>
    refine ⟨rfl, fun j => ?_⟩
    simp only [registryOf, List.getElem?_append]
    split
    · rfl
    next hge =>
      -- The new one is empty, and before it there was none.
      rw [List.getElem?_eq_none (Nat.not_lt.mp hge)]
      cases h : [(⟨o, none, []⟩ : Initializer)][j - l.initializers.length]? with
      | none => rfl
      | some y =>
        obtain rfl := List.mem_singleton.mp (List.mem_of_getElem? h)
        rfl

theorem Enters.same {a : Nat} {l k : Lines} (h : l.Enters a k) :
    k.founded = l.founded ∧ ∀ j, k.registryOf j = l.registryOf j := by
  cases h with
  | stays => exact ⟨rfl, fun _ => rfl⟩
  | @queues x y hx hstage hy => exact ⟨rfl, fun j => registryOf_join a x.initializer j l⟩

/-- A call keeps its initializer, and a turn of another one leaves it as it is. -/
theorem Enters.attempt {a b : Nat} {l k : Lines} (h : l.Enters a k) {x : Attempt}
    (hx : l.attempts[b]? = some x) : ∃ x' : Attempt, k.attempts[b]? = some x' ∧
      x'.initializer = x.initializer ∧ (b ≠ a → x' = x) := by
  cases h with
  | stays => exact ⟨x, hx, rfl, fun _ => rfl⟩
  | queues hy hstage _ =>
    by_cases hba : b = a
    · subst hba
      exact ⟨_, getElem?_attempts_mark .queued hx, rfl, fun h => absurd rfl h⟩
    · exact ⟨x, (List.getElem?_modify_ne _ _ (Ne.symm hba)).trans hx, rfl, fun _ => rfl⟩

theorem exists_mark_of_move {a : Nat} {l l' : Lines} (h : l.Move a l') :
    ∃ stage, l'.attempts = (l.mark a stage).attempts := by
  cases h with
  | abandons _ => exact ⟨.abandoned, rfl⟩
  | answers _ _ _ _ => exact ⟨_, rfl⟩
  | builds _ _ _ _ _ h =>
    cases h with
    | waits remote deadline => exact ⟨.waiting remote deadline, rfl⟩
    | fails e => exact ⟨.finished (.error e), rfl⟩
    | founds => exact ⟨.finished (.ok l.founded), rfl⟩

theorem Turn.attempt {a b : Nat} {l l' : Lines} (h : l.Turn a l') {x : Attempt}
    (hx : l.attempts[b]? = some x) : ∃ x' : Attempt, l'.attempts[b]? = some x' ∧
      x'.initializer = x.initializer ∧ (b ≠ a → x' = x) := by
  obtain ⟨k, hk, hl'⟩ := h
  obtain ⟨z, hz, hinitializer, hother⟩ := hk.attempt hx
  rcases hl' with rfl | hmove
  · exact ⟨z, hz, hinitializer, hother⟩
  · obtain ⟨stage, hattempts⟩ := exists_mark_of_move hmove
    rw [hattempts]
    by_cases hba : b = a
    · subst hba
      exact ⟨_, getElem?_attempts_mark stage hz, hinitializer, fun h => absurd rfl h⟩
    · exact ⟨z, (List.getElem?_modify_ne _ _ (Ne.symm hba)).trans hz, hinitializer, hother⟩

/-- A turn founds no registry, or one for the initializer of the call, where none has stood. -/
theorem Turn.registries {a : Nat} {l l' : Lines} (h : l.Turn a l') :
    (l'.founded = l.founded ∧ ∀ j, l'.registryOf j = l.registryOf j) ∨
    ∃ x : Attempt, l.attempts[a]? = some x ∧ l'.founded = l.founded + 1 ∧
      l.registryOf x.initializer = none ∧
      ∀ j, l'.registryOf j = if x.initializer = j then some l.founded else l.registryOf j := by
  obtain ⟨k, hk, hl'⟩ := h
  obtain ⟨hfounded, hsame⟩ := hk.same
  have hstay (i : Nat) (stage : Stage) : (k.leave a i stage).founded = l.founded ∧
      ∀ j, (k.leave a i stage).registryOf j = l.registryOf j :=
    ⟨hfounded, fun j => (registryOf_leave a i j stage k).trans (hsame j)⟩
  rcases hl' with rfl | hmove
  · exact Or.inl ⟨hfounded, hsame⟩
  cases hmove with
  | abandons _ => exact Or.inl (hstay _ _)
  | answers _ _ _ _ => exact Or.inl (hstay _ _)
  | @builds x y _ hx _ hy _ hr hbuilt =>
    cases hbuilt with
    | waits remote deadline => exact Or.inl ⟨hfounded, hsame⟩
    | fails e => exact Or.inl (hstay _ _)
    | founds =>
      obtain ⟨z, hz, hinitializer⟩ : ∃ z : Attempt, l.attempts[a]? = some z ∧
          z.initializer = x.initializer := by
        cases hk with
        | stays => exact ⟨x, hx, rfl⟩
        | @queues z _ hz _ _ =>
          obtain rfl := Option.some.inj ((getElem?_attempts_mark .queued hz).symm.trans hx)
          exact ⟨z, hz, rfl⟩
      refine Or.inr ⟨z, hz, congrArg (· + 1) hfounded, ?_, fun j => ?_⟩
      · rw [hinitializer, ← hsame, registryOf_eq hy, hr]
      · rw [registryOf_leave, hinitializer]
        split
        next hj =>
          subst hj
          rw [registryOf_found_self hy, hfounded]
        next hj => exact (registryOf_found_other hj k).trans (hsame j)

/-- A call that comes to an error leaves its initializer without a registry. -/
theorem Turn.failed {a : Nat} {l l' : Lines} (h : l.Turn a l') {x' : Attempt} {e : Error}
    (hx' : l'.attempts[a]? = some x') (hstage : x'.stage = .finished (.error e))
    (hbefore : ∀ x : Attempt, l.attempts[a]? = some x → x.stage ≠ .finished (.error e)) :
    l'.registryOf x'.initializer = none := by
  obtain ⟨k, hk, rfl | hmove⟩ := h
  · cases hk with
    | stays => exact absurd hstage (hbefore x' hx')
    | queues hx _ _ =>
      obtain rfl := Option.some.inj ((getElem?_attempts_mark .queued hx).symm.trans hx')
      cases hstage
  · cases hmove with
    | abandons hx =>
      obtain rfl := Option.some.inj ((getElem?_attempts_mark .abandoned hx).symm.trans hx')
      cases hstage
    | answers hx _ _ _ =>
      obtain rfl := Option.some.inj ((getElem?_attempts_mark _ hx).symm.trans hx')
      cases hstage
    | builds hx _ hy _ hr hbuilt =>
      cases hbuilt with
      | waits remote deadline =>
        obtain rfl := Option.some.inj ((getElem?_attempts_mark _ hx).symm.trans hx')
        cases hstage
      | founds =>
        obtain rfl := Option.some.inj ((getElem?_attempts_mark _ hx).symm.trans hx')
        cases hstage
      | fails e =>
        obtain rfl := Option.some.inj ((getElem?_attempts_mark _ hx).symm.trans hx')
        rw [registryOf_leave, registryOf_eq hy, hr]

/-! ### Calls that are over -/

theorem Comes.stage {b : Nat} {l l' : Lines} (h : l.Comes l') {x : Attempt}
    (hx : l.attempts[b]? = some x) :
    ∃ x' : Attempt, l'.attempts[b]? = some x' ∧ x'.stage = x.stage := by
  cases h with
  | stays | opens _ => exact ⟨x, hx, rfl⟩
  | calls i =>
    exact ⟨x, (List.getElem?_append_left (List.getElem?_eq_some_iff.mp hx).1).trans hx, rfl⟩
  | cancels a =>
    refine ⟨if a = b then { x with cancelled := true } else x, ?_, ?_⟩
    · simp [List.getElem?_modify, hx]
    · split <;> rfl

/-- A call that is over keeps its answer, unless it is given up. -/
theorem Turn.stage_of_isOver {a b : Nat} {l l' : Lines} (h : l.Turn a l') {x : Attempt}
    (hx : l.attempts[b]? = some x) (hover : x.stage.isOver = true) :
    ∃ x' : Attempt, l'.attempts[b]? = some x' ∧ (x'.stage = x.stage ∨ x'.stage = .abandoned) := by
  by_cases hba : b = a
  · subst hba
    obtain ⟨k, hk, hl'⟩ := h
    have hk : k = l := by
      cases hk with
      | stays => rfl
      | queues hz hstage _ =>
        obtain rfl := Option.some.inj (hx.symm.trans hz)
        rw [hstage] at hover
        cases hover
    subst hk
    have hnotInLine {z : Attempt} (hz : k.attempts[b]? = some z) : z.stage.inLine ≠ true := by
      obtain rfl := Option.some.inj (hx.symm.trans hz)
      cases hstage : x.stage with
      | finished _ | abandoned => exact Bool.false_ne_true
      | fresh | queued | waiting _ _ =>
        rw [hstage] at hover
        cases hover
    rcases hl' with rfl | hmove
    · exact ⟨x, hx, Or.inl rfl⟩
    · cases hmove with
      | abandons hz => exact ⟨_, getElem?_attempts_mark .abandoned hz, Or.inr rfl⟩
      | answers hz hline _ _ => exact absurd hline (hnotInLine hz)
      | builds hz hline _ _ _ _ => exact absurd hline (hnotInLine hz)
  · obtain ⟨x', hx', _, hother⟩ := h.attempt hx
    exact ⟨x', hx', Or.inl (by rw [hother hba])⟩

end Lines

end Node

end NamespaceTopology
