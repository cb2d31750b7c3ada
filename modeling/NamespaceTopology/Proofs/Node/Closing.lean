import NamespaceTopology.Proofs.Node.Exports
import NamespaceTopology.Proofs.Node.Tasks
import NamespaceTopology.Proofs.Node.Updates

set_option autoImplicit false

/-!
Closing a registry of a node. The first one who tries to close it does so, whoever else tries. From then
on it shows what it showed, whoever watches it gets what waits for him and hears the end, nothing of it
is exported, and its two tasks finish.
-/
namespace NamespaceTopology

open NamespaceTopology.Dynamic (Move Stands publishedBetween)

namespace Node

/-! ### Who closes a registry -/

theorem Change.closeOnRead_cases {C : Nat → Prop} {n n' : Node} (h : Change C n n') :
    n'.closeOnRead = n.closeOnRead ∨ n'.closeOnRead = none := by
  cases h with
  | outside h => exact Or.inl (congrArg Inner.closeOnRead h)
  | store _ | follower _ _ | withdraw _ | addTask _ | endTask _ => exact Or.inl rfl
  | forget _ _ => exact Or.inr rfl
  | metrics h => exact Or.inl h.closeOnRead
  | close due hf hclose h => exact h.imp And.right And.right

theorem Changes.closeOnRead_cases {C : Nat → Prop} {n n' : Node} (h : Changes C n n') :
    n'.closeOnRead = n.closeOnRead ∨ n'.closeOnRead = none := by
  induction h with
  | refl _ => exact Or.inl rfl
  | next hc _ ih =>
    rcases ih with hsame | hnone
    · exact hc.closeOnRead_cases.imp hsame.trans hsame.trans
    · exact Or.inr hnone

/-- A registry that small changes close was closed by somebody who may, or by a read that was due. -/
theorem Changes.closer {C : Nat → Prop} {n n' : Node} (h : Changes C n n') {r : Nat} {f f' : Follower}
    (hf : n.followers[r]? = some f) (hopen : f.registry.closed = false)
    (hf' : n'.followers[r]? = some f') (hclosed : f'.registry.closed = true) :
    C r ∨ (n.closeOnRead = some r ∧ n'.closeOnRead = none) := by
  induction h generalizing f with
  | refl _ =>
    obtain rfl := Option.some.inj (hf.symm.trans hf')
    rw [hopen] at hclosed
    cases hclosed
  | next hc tail ih =>
    obtain ⟨g, hg, _, hkept | ⟨_, _, hcloser⟩⟩ := hc.follower_cases hf
    · refine (ih hg (hkept.trans hopen) hf').imp_right fun ⟨hdue, hnone⟩ => ⟨?_, hnone⟩
      rcases hc.closeOnRead_cases with hsame | hgone
      · exact hsame.symm.trans hdue
      · rw [hgone] at hdue
        cases hdue
    · refine hcloser.imp_right fun ⟨hdue, hnone⟩ => ⟨hdue, ?_⟩
      exact tail.closeOnRead_cases.elim (fun hsame => hsame.trans hnone) id

/-- If a read was due to close a registry and is no more, the registry is closed. -/
theorem Change.closed_of_read {C : Nat → Prop} {n n' : Node} (h : Change C n n') {r : Nat}
    (hdue : n.closeOnRead = some r) (hnone : n'.closeOnRead = none) {f' : Follower}
    (hf' : n'.followers[r]? = some f') : f'.registry.closed = true := by
  have hkept (hsame : n'.closeOnRead = n.closeOnRead) : f'.registry.closed = true := by
    rw [hsame, hdue] at hnone
    cases hnone
  cases h with
  | outside h => exact hkept (congrArg Inner.closeOnRead h)
  | store _ | follower _ _ | withdraw _ | addTask _ | endTask _ => exact hkept rfl
  | metrics h => exact hkept h.closeOnRead
  | forget hdue' hclosed =>
    obtain rfl := Option.some.inj (hdue.symm.trans hdue')
    exact hclosed f'.registry (by rw [registryAt, show n.followers[r]? = some f' from hf']; rfl)
  | @close due s f d e notices hf hclose hby =>
    rcases hby with ⟨_, hsame⟩ | ⟨hdue', _⟩
    · exact hkept hsame
    · obtain rfl := Option.some.inj (hdue.symm.trans hdue')
      obtain rfl : { f with registry := d } = f' := by
        simpa [setExposition, modifyFollower, hf] using hf'
      exact (Dynamic.closed_of_close hclose).2

theorem Changes.closed_of_read {C : Nat → Prop} {n n' : Node} (h : Changes C n n') {r : Nat}
    {f f' : Follower} (hf : n.followers[r]? = some f) (hdue : n.closeOnRead = some r)
    (hnone : n'.closeOnRead = none) (hf' : n'.followers[r]? = some f') :
    f'.registry.closed = true := by
  induction h generalizing f with
  | refl _ =>
    rw [hdue] at hnone
    cases hnone
  | next hc tail ih =>
    obtain ⟨g, hg, _⟩ := hc.persists hf
    rcases hc.closeOnRead_cases with hsame | hgone
    · exact ih hg (hsame.trans hdue) hnone hf'
    · obtain ⟨g', hg', hpersists⟩ := tail.persists hg
      obtain rfl := Option.some.inj (hf'.symm.trans hg')
      exact hpersists.closed (hc.closed_of_read hdue hgone hg)

/-- A registry that is there goes through all small changes before another one is founded. -/
theorem Becomes.exists_changes {C : Nat → Prop} {n n' : Node} (h : Becomes C n n') {r : Nat}
    {f f' : Follower} (hf : n.followers[r]? = some f) (hf' : n'.followers[r]? = some f') :
    ∃ m, Changes C n m ∧ m.followers[r]? = some f' ∧ m.closeOnRead = n'.closeOnRead := by
  obtain ⟨m, hm, hn'⟩ := h
  obtain ⟨g, hg, _⟩ := hm.persists hf
  refine ⟨m, hm, ?_⟩
  rcases hn' with hsame | ⟨x, hx⟩
  · obtain ⟨_, _, _, hfollowers, _, hread⟩ := Inner.mk.inj hsame
    exact ⟨hfollowers ▸ hf', hread.symm⟩
  · refine ⟨?_, hx.closeOnRead.symm⟩
    rw [← hf', hx.getElem?_followers hg, hg]

/-- Whether somebody tries to close a registry in an event: a user or the update loop does, or a read
that was due to close it. -/
def tries (r : Nat) (n : Node) (e : Event) : Bool :=
  n.closing r e || (n.closeOnRead = some r && (n.occur e).closeOnRead = none)

theorem closeDynamic_of_closed {r : Nat} {n : Node} {d : Dynamic} (hd : n.registryAt r = some d)
    (hc : d.closed = true) : n.closeDynamic r = .error (.lifecycle .alreadyClosed) := by
  obtain ⟨f, hf, rfl⟩ := Option.map_eq_some_iff.mp hd
  simp [closeDynamic, hf, Dynamic.close_of_closed hc, bind, Except.bind]

theorem closeDynamic_of_open {r : Nat} {n : Node} {d : Dynamic} (hd : n.registryAt r = some d)
    (hopen : d.closed = false) : ∃ m, n.closeDynamic r = .ok m := by
  cases h : n.closeDynamic r with
  | ok m => exact ⟨m, rfl⟩
  | error e =>
    rw [closed_of_closeDynamic h hd] at hopen
    cases hopen

theorem closed_of_ensureClosed {r : Nat} {n : Node} {d : Dynamic}
    (hd : (n.ensureClosed r).registryAt r = some d) : d.closed = true := by
  unfold ensureClosed at hd
  split at hd
  next m hm =>
    obtain ⟨f, x, e, notices, hf, hclose, rfl⟩ := closeDynamic_eq_ok hm
    rw [registryAt_closeRemote, registryAt_tell, registryAt_setExposition, registryAt_modifyFollower,
      if_pos rfl, hf] at hd
    obtain rfl := Option.some.inj hd
    exact (Dynamic.closed_of_close hclose).2
  next e he => exact closed_of_closeDynamic he hd

theorem loopEnds_iff {r : Nat} {n : Node} : n.loopEnds r = true ↔ ∃ f, n.followers[r]? = some f ∧
    f.registry.closed = false ∧ (n.takeSignal f.remote).2 = .ended := by
  rw [loopEnds, Option.any_eq_true]
  simp

theorem closed_of_closing {r : Nat} {n : Node} {e : Event} {d : Dynamic}
    (hd : (n.occur e).registryAt r = some d) (h : n.closing r e = true) : d.closed = true := by
  cases e with
  | close source =>
    obtain rfl : source = .dynamic r := by simpa [closing] using h
    exact closed_of_ensureClosed hd
  | streamEnd s =>
    obtain rfl : s = r := by simpa [closing] using h
    exact closed_of_ensureClosed ((registryAt_endLoop s s (n.ensureClosed s)).symm.trans hd)
  | turn t =>
    cases t with
    | updates s =>
      obtain ⟨rfl, hends⟩ : s = r ∧ n.loopEnds r = true := by simpa [closing] using h
      obtain ⟨f, hf, hopen, hended⟩ := loopEnds_iff.mp hends
      have hstep : (n.stepUpdates s).registryAt s = some d := hd
      rw [stepUpdates_of_ended hf hopen hended, registryAt_endLoop] at hstep
      exact closed_of_ensureClosed hstep
    | samples _ | attempt _ | consumer _ => cases h
  | _ => cases h

/-- Who tries to close a registry leaves it closed, and nobody else closes it. -/
theorem tries_iff {r : Nat} {n : Node} {e : Event} {d d' : Dynamic} (hd : n.registryAt r = some d)
    (hopen : d.closed = false) (hd' : (n.occur e).registryAt r = some d') :
    n.tries r e = true ↔ d'.closed = true := by
  have htries : n.tries r e = true ↔
      n.closing r e = true ∨ (n.closeOnRead = some r ∧ (n.occur e).closeOnRead = none) := by
    simp [tries]
  rw [htries]
  obtain ⟨f, hf, rfl⟩ := Option.map_eq_some_iff.mp hd
  obtain ⟨f', hf', rfl⟩ := Option.map_eq_some_iff.mp hd'
  cases hdirect : e.isDirect with
  | false =>
    obtain ⟨m, hm, hg, hread⟩ := (becomes_occur hdirect n).exists_changes hf hf'
    rw [← hread]
    constructor
    · rintro (hclosing | ⟨hdue, hnone⟩)
      · exact closed_of_closing hd' hclosing
      · exact hm.closed_of_read hf hdue hnone hg
    · exact hm.closer hf hopen hg
  | true =>
    -- An event that is direct leaves all registries alone, and no read ends in it.
    have hsame : (n.occur e).followers = n.followers ∧
        ((n.occur e).closeOnRead = none → n.closeOnRead = none) ∧ n.closing r e = false := by
      cases e with
      | store _ => exact ⟨rfl, id, rfl⟩
      | closeOnRead s => exact ⟨rfl, fun h => (Option.some_ne_none s h).elim, rfl⟩
      | register exposition c =>
        obtain ⟨_, _, _, hfollowers, _, hread⟩ := Inner.mk.inj (inner_register exposition c n)
        exact ⟨hfollowers, hread.symm.trans, rfl⟩
      | _ => cases hdirect
    obtain ⟨hfollowers, hread, hclosing⟩ := hsame
    rw [hfollowers, hf] at hf'
    obtain rfl := Option.some.inj hf'
    rw [hclosing, hopen]
    constructor
    · rintro (hfalse | ⟨hdue, hnone⟩)
      · cases hfalse
      · rw [hread hnone] at hdue
        cases hdue
    · intro hfalse
      cases hfalse

/-! ### What those hear who try -/

def closeAnswersAlong (r : Nat) : Node → List Event → List (Except Error Unit)
  | _, [] => []
  | n, e :: es => (if n.tries r e then [(n.closeDynamic r).map fun _ => ()] else []) ++
      closeAnswersAlong r (n.occur e) es

theorem exists_closed_run {r : Nat} {n : Node} {d : Dynamic} (hd : n.registryAt r = some d)
    (hco : d.Coherent) (hc : d.closed = true) (es : List Event) :
    ∃ d', (n.run es).registryAt r = some d' ∧ d'.closed = true := by
  obtain ⟨ms, hrun⟩ := exists_registryAt_run hd es
  exact ⟨d.run ms, hrun, Dynamic.closed_run hco hc ms⟩

theorem closeAnswersAlong_of_closed {r : Nat} {n : Node} {d : Dynamic}
    (hd : n.registryAt r = some d) (hco : d.Coherent) (hc : d.closed = true) (es : List Event) :
    ∃ k, n.closeAnswersAlong r es = List.replicate k (.error (.lifecycle .alreadyClosed)) := by
  induction es generalizing n d with
  | nil => exact ⟨0, rfl⟩
  | cons e es ih =>
    obtain ⟨ms, hstep⟩ := exists_registryAt_occur hd e
    obtain ⟨k, hk⟩ := ih hstep (hco.run ms) (Dynamic.closed_run hco hc ms)
    rw [closeAnswersAlong, closeDynamic_of_closed hd hc, hk]
    split
    · exact ⟨k + 1, rfl⟩
    · exact ⟨k, rfl⟩

theorem closeAnswersAlong_of_open {r : Nat} {n : Node} {d : Dynamic} (hd : n.registryAt r = some d)
    (hco : d.Coherent) (hopen : d.closed = false) (es : List Event) :
    ∃ d', (n.run es).registryAt r = some d' ∧
      ((d'.closed = false ∧ n.closeAnswersAlong r es = []) ∨
      (d'.closed = true ∧ ∃ k, n.closeAnswersAlong r es =
        .ok () :: List.replicate k (.error (.lifecycle .alreadyClosed)))) := by
  induction es generalizing n d with
  | nil => exact ⟨d, hd, Or.inl ⟨hopen, rfl⟩⟩
  | cons e es ih =>
    obtain ⟨ms, hstep⟩ := exists_registryAt_occur hd e
    have htries := tries_iff hd hopen hstep
    rw [closeAnswersAlong]
    cases hc : (d.run ms).closed with
    | false =>
      rw [if_neg (by rw [htries, hc]; exact Bool.false_ne_true)]
      exact ih hstep (hco.run ms) hc
    | true =>
      rw [if_pos (htries.mpr hc)]
      obtain ⟨d', hd', hclosed⟩ := exists_closed_run hstep (hco.run ms) hc es
      obtain ⟨m, hm⟩ := closeDynamic_of_open hd hopen
      obtain ⟨k, hk⟩ := closeAnswersAlong_of_closed hstep (hco.run ms) hc es
      exact ⟨d', hd', Or.inr ⟨hclosed, k, by rw [hm, hk]; rfl⟩⟩

/-! ### What stands still -/

theorem IsStart.released {d : Dynamic} (h : IsStart d) : d.Released := by
  obtain ⟨o, i, first, rfl, _⟩ := h
  exact Dynamic.released_start o i first

def Releasing (n : Node) : Prop := ∀ r d, n.registryAt r = some d → d.Released

theorem releasing_start : start.Releasing := by
  intro r d hd
  simp [registryAt, start] at hd

theorem Releasing.run {n : Node} (hn : n.Releasing) (hco : n.Coherent) (es : List Event) :
    (n.run es).Releasing := by
  induction es generalizing n with
  | nil => exact hn
  | cons e es ih =>
    refine ih (fun r d hd => ?_) (hco.occur e)
    cases hr : n.registryAt r with
    | none => exact (isStart_of_new hr hd).released
    | some d₀ =>
      obtain ⟨ms, hrun⟩ := exists_registryAt_occur hr e
      obtain rfl := Option.some.inj (hd.symm.trans hrun)
      exact (hn r d₀ hr).run (hco r d₀ hr) ms

theorem stands_occur {r : Nat} {n : Node} {e : Event} {d d' : Dynamic} (hd : n.registryAt r = some d)
    (hco : d.Coherent) (hd' : (n.occur e).registryAt r = some d') (hc : d'.closed = true) :
    Stands (n.handed r e) d d' ∧ publishedBetween (n.latest r) ((n.occur e).latest r) = [] := by
  obtain ⟨k, last, ht⟩ := exists_traced hd e
  obtain rfl := Option.some.inj (hd'.symm.trans ht.registry)
  have hends : Stands [] d k := (ht.alike hco).stands
  have hstands : Stands (n.handed r e) d (k.run last.toList) := by
    rw [ht.handed]
    cases last with
    | none => exact hends
    | some m => exact hends.trans (Dynamic.stands_after (ht.coherent hco) hc)
  refine ⟨hstands, ?_⟩
  rw [latest_of_registryAt hd, latest_of_registryAt hd', hstands.latest]
  exact Dynamic.publishedBetween_self _

theorem stands_run_of_closed {r : Nat} {n : Node} {d : Dynamic} (hd : n.registryAt r = some d)
    (hco : d.Coherent) (hc : d.closed = true) (es : List Event) :
    ∃ d', (n.run es).registryAt r = some d' ∧ Stands (n.handedAlong r es) d d' ∧
      n.publishedAlong r es = [] := by
  induction es generalizing n d with
  | nil => exact ⟨d, hd, (Dynamic.Alike.refl d).stands, rfl⟩
  | cons e es ih =>
    obtain ⟨ms, hrun⟩ := exists_registryAt_occur hd e
    have hclosed := Dynamic.closed_run hco hc ms
    obtain ⟨hstands, hpublished⟩ := stands_occur hd hco hrun hclosed
    obtain ⟨d', hd', hrest, hnothing⟩ := ih hrun (hco.run ms) hclosed
    refine ⟨d', hd', hstands.trans hrest, ?_⟩
    rw [publishedAlong, hpublished]
    exact hnothing

/-- What is left to hear of a watch on a registry that has been closed: what waits, if anything does, and
that the watch has ended. -/
def EndsAfter (pending : Option Topology) (answers : List (Delivery Item)) : Prop :=
  ∃ k, answers = List.replicate k .ended ∨
    ∃ t, pending = some t ∧ answers = .value (.topology t) :: List.replicate k .ended

def answersAlong (source : Source) (id : Nat) : Node → List Event → List (Delivery Item)
  | _, [] => []
  | n, e :: es => (n.answer source id e).toList ++ answersAlong source id (n.occur e) es

theorem EndsAfter.weaken {pending pending' : Option Topology} {answers : List (Delivery Item)}
    (h : EndsAfter pending answers) (hpending : pending = pending' ∨ pending = none) :
    EndsAfter pending' answers := by
  rcases hpending with rfl | rfl
  · exact h
  · obtain ⟨k, hk | ⟨t, ht, _⟩⟩ := h
    · exact ⟨k, Or.inl hk⟩
    · cases ht

theorem EndsAfter.cons {pending : Option Topology} {answers : List (Delivery Item)}
    (h : EndsAfter none answers) :
    EndsAfter pending ((pending.elim Delivery.ended Delivery.value).map Item.topology :: answers) := by
  obtain ⟨k, rfl | ⟨t, ht, _⟩⟩ := h
  · cases pending with
    | none => exact ⟨k + 1, Or.inl rfl⟩
    | some t => exact ⟨k, Or.inr ⟨t, rfl, rfl⟩⟩
  · cases ht

/-- An event that leaves a registry closed brings a watch on it what waits at most. -/
theorem EndsAfter.occur {r id : Nat} {n : Node} {e : Event} {d d' : Dynamic}
    (hd : n.registryAt r = some d) (hco : d.Coherent) (hr : d.Released)
    (hd' : (n.occur e).registryAt r = some d') (hc : d'.closed = true)
    {answers : List (Delivery Item)} (h : EndsAfter (d'.pending? id) answers) :
    EndsAfter (d.pending? id) ((n.answer (.dynamic r) id e).toList ++ answers) := by
  obtain ⟨k, last, ht⟩ := exists_traced hd e
  obtain rfl := Option.some.inj (hd'.symm.trans ht.registry)
  have hk := ht.coherent hco
  obtain ⟨ms, hms, rfl⟩ := ht.ends
  refine EndsAfter.weaken ?_ (Dynamic.pending?_run_ends hco hms id)
  rw [ht.answer]
  cases last with
  | none => exact h
  | some m =>
    cases hanswer : (d.run ms).answer id m with
    | none =>
      rw [Option.bind_some, hanswer]
      exact h.weaken (Dynamic.pending?_after hk hc hanswer)
    | some x =>
      -- The one who asks takes what waits, since the registry was closed before.
      obtain ⟨rfl, rfl⟩ := Dynamic.answer_eq_some hanswer
      have hclosed : (d.run ms).closed = true :=
        (Dynamic.closed_after (m := .next id) rfl).symm.trans hc
      obtain ⟨hnone, hnext⟩ := Dynamic.next_of_closed hk (hr.run hco ms) hclosed id
      rw [Option.bind_some, hanswer, hnext]
      exact EndsAfter.cons (hnone ▸ h)

theorem endsAfter_run {r : Nat} {n : Node} {d : Dynamic} (hd : n.registryAt r = some d)
    (hco : d.Coherent) (hr : d.Released) (hc : d.closed = true) (id : Nat) (es : List Event) :
    EndsAfter (d.pending? id) (n.answersAlong (.dynamic r) id es) := by
  induction es generalizing n d with
  | nil => exact ⟨0, Or.inl rfl⟩
  | cons e es ih =>
    obtain ⟨ms, hrun⟩ := exists_registryAt_occur hd e
    have hclosed := Dynamic.closed_run hco hc ms
    exact EndsAfter.occur hd hco hr hrun hclosed (ih hrun (hco.run ms) (hr.run hco ms) hclosed)

/-! ### What is still read -/

/-- What the update loop of a registry is woken to read by an event, whatever its remote side. -/
def Event.woken? (r : Nat) : Event → Option (Option Value)
  | .wake s content => if s = r then some content else none
  | _ => none

theorem handed_of_closed {r : Nat} {n : Node} {d : Dynamic} (hd : n.registryAt r = some d)
    (hc : d.closed = true) (e : Event) : n.handed r e = (e.woken? r).toList := by
  obtain ⟨f, hf, rfl⟩ := Option.map_eq_some_iff.mp hd
  cases e with
  | wake s content =>
    simp only [handed, Event.woken?]
    split <;> rfl
  | turn t =>
    cases t with
    | updates s => simp +contextual [handed, reading?, hf, hc, Event.woken?]
    | samples _ | attempt _ | consumer _ => rfl
  | _ => rfl

theorem handedAlong_of_closed {r : Nat} {n : Node} {d : Dynamic} (hd : n.registryAt r = some d)
    (hco : d.Coherent) (hc : d.closed = true) (es : List Event) :
    n.handedAlong r es = es.filterMap (Event.woken? r) := by
  induction es generalizing n d with
  | nil => rfl
  | cons e es ih =>
    obtain ⟨ms, hrun⟩ := exists_registryAt_occur hd e
    rw [handedAlong, handed_of_closed hd hc, ih hrun (hco.run ms) (Dynamic.closed_run hco hc ms),
      List.filterMap_cons]
    cases e.woken? r <;> rfl

theorem closeOnRead_wake (r : Nat) (content : Option Value) (n : Node) :
    (n.wake r content).closeOnRead = n.closeOnRead := by
  unfold wake
  split <;> rfl

theorem reading?_of_loopEnds {r : Nat} {n : Node} (h : n.loopEnds r = true) :
    n.reading? r = none := by
  obtain ⟨f, hf, hopen, hended⟩ := loopEnds_iff.mp h
  rcases htake : n.takeSignal f.remote with ⟨m, signal⟩
  rw [htake] at hended
  obtain rfl : signal = .ended := hended
  simp [reading?, hf, hopen, htake]

/-- If the update loop of a registry reads something in an event in which somebody tries to close the
registry, that happens while it reads. -/
theorem read_of_tries {r : Nat} {n : Node} {e : Event} (h : n.tries r e = true)
    (hread : n.handed r e ≠ []) : e = .turn (.updates r) ∧ n.closeOnRead = some r ∧
      ∃ content, n.handed r e = [content] := by
  have htries : n.closing r e = true ∨
      (n.closeOnRead = some r ∧ (n.occur e).closeOnRead = none) := by
    simpa [tries] using h
  cases e with
  | wake s content =>
    rcases htries with hfalse | ⟨hdue, hnone⟩
    · cases hfalse
    · rw [occur, closeOnRead_wake, hdue] at hnone
      cases hnone
  | turn t =>
    cases t with
    | updates s =>
      simp only [handed] at hread ⊢
      split at hread
      next hs =>
        subst hs
        cases hreading : n.reading? s with
        | none =>
          rw [hreading] at hread
          exact absurd rfl hread
        | some content =>
          refine ⟨rfl, ?_, content, by rw [if_pos rfl]; rfl⟩
          refine (htries.resolve_left fun hclosing => ?_).1
          rw [reading?_of_loopEnds (by simpa [closing] using hclosing)] at hreading
          cases hreading
      next => exact absurd rfl hread
    | samples _ | attempt _ | consumer _ => exact absurd rfl hread
  | _ => exact absurd rfl hread

/-! ### Closing is final -/

/-- How things stand with a registry from the event on that closes it, before which it was `d`. -/
structure ClosedBy (r : Nat) (n : Node) (e : Event) (d : Dynamic) : Prop where
  /-- Whoever tries to close it again hears that it is closed, and changes nothing. -/
  again (es : List Event) :
    (n.run (e :: es)).closeDynamic r = .error (.lifecycle .alreadyClosed) ∧
    (n.run (e :: es)).ensureClosed r = n.run (e :: es) ∧
    (n.run (e :: es)).occur (.close (.dynamic r)) = n.run (e :: es)
  refused (es : List Event) : (n.run (e :: es)).watch (.dynamic r) = .error (.lifecycle .closed)
  /-- It shows what it showed, and counts what is lost of what its update loop still reads. -/
  stands (es : List Event) : ∃ d', (n.run (e :: es)).registryAt r = some d' ∧ d'.closed = true ∧
    Stands (n.handedAlong r (e :: es)) d d'
  silent (es : List Event) : n.publishedAlong r (e :: es) = []
  /-- The update loop reads nothing more of its own accord. -/
  read (es : List Event) :
    n.handedAlong r (e :: es) = n.handed r e ++ es.filterMap (Event.woken? r)
  /-- If it reads something in that very event, the registry is closed while it reads. -/
  reading : n.handed r e ≠ [] → e = .turn (.updates r) ∧ n.closeOnRead = some r ∧
    ∃ content, n.handed r e = [content]
  watched (id : Nat) (es : List Event) :
    EndsAfter (d.pending? id) (n.answersAlong (.dynamic r) id (e :: es))
  finished (es : List Event) :
    (∀ t ∈ (n.run (e :: es)).tasks, (n.run (e :: es)).isReady t = false) →
    ∃ f, (n.run (e :: es)).followers[r]? = some f ∧ f.loopDone = true ∧ f.samplerDone = true

theorem closedBy_of_tries {r : Nat} {n : Node} {e : Event} {d : Dynamic} (hn : n.Coherent)
    (hr : n.Releasing) (hs : n.Staffed) (hd : n.registryAt r = some d) (hopen : d.closed = false)
    (h : n.tries r e = true) : n.ClosedBy r e d := by
  have hco := hn r d hd
  obtain ⟨ms, hd'⟩ := exists_registryAt_occur hd e
  have hco' := hco.run ms
  have hc := (tries_iff hd hopen hd').mp h
  obtain ⟨hstands, hpublished⟩ := stands_occur hd hco hd' hc
  refine ⟨fun es => ?_, fun es => ?_, fun es => ?_, fun es => ?_, fun es => ?_, read_of_tries h,
    fun id es => ?_, fun es hidle => ?_⟩
  · obtain ⟨x, hx, hclosed⟩ := exists_closed_run hd' hco' hc es
    have hagain : (n.run (e :: es)).closeDynamic r = .error (.lifecycle .alreadyClosed) :=
      closeDynamic_of_closed hx hclosed
    have hsame : (n.run (e :: es)).ensureClosed r = n.run (e :: es) := by
      rw [ensureClosed, hagain]
    exact ⟨hagain, hsame, hsame⟩
  · obtain ⟨x, hx, hclosed⟩ := exists_closed_run hd' hco' hc es
    obtain ⟨f, hf, rfl⟩ := Option.map_eq_some_iff.mp hx
    have hf : (n.run (e :: es)).followers[r]? = some f := hf
    simp [watch, hf, Dynamic.watch_of_closed hclosed, Except.map]
  · obtain ⟨x, hx, hclosed⟩ := exists_closed_run hd' hco' hc es
    obtain ⟨y, hy, hrest, _⟩ := stands_run_of_closed hd' hco' hc es
    obtain rfl := Option.some.inj (hx.symm.trans hy)
    exact ⟨x, hx, hclosed, hstands.trans hrest⟩
  · obtain ⟨_, _, _, hnothing⟩ := stands_run_of_closed hd' hco' hc es
    rw [publishedAlong, hpublished]
    exact hnothing
  · rw [handedAlong, handedAlong_of_closed hd' hco' hc es]
  · exact EndsAfter.occur hd hco (hr r d hd) hd' hc
      (endsAfter_run hd' hco' ((hr r d hd).run hco ms) hc id es)
  · obtain ⟨x, hx, hclosed⟩ := exists_closed_run hd' hco' hc es
    obtain ⟨f, hf, rfl⟩ := Option.map_eq_some_iff.mp hx
    exact ⟨f, hf, (hs.run (e :: es)).finished hf hclosed hidle⟩

/-- The first attempt to close a registry succeeds and every later one fails, whoever makes them. From
the first on the registry stands still, whatever else happens, and nothing that it owns is exported. Only
an update that its loop was already called to read may still be counted. -/
theorem close_is_final (es : List Event) (r : Nat) (d : Dynamic)
    (hd : (start.run es).registryAt r = some d) (hopen : d.closed = false) :
    let n := start.run es
    (∀ es', ∃ d', (n.run es').registryAt r = some d' ∧
      ((d'.closed = false ∧ n.closeAnswersAlong r es' = []) ∨
      (d'.closed = true ∧ ∃ k, n.closeAnswersAlong r es' =
        .ok () :: List.replicate k (.error (.lifecycle .alreadyClosed))))) ∧
    ∀ e, n.tries r e = true → n.ClosedBy r e d ∧
      ∀ es', (∀ x ∈ es ++ e :: es', x.isForeign = true) → ∀ name c,
        ((n.run (e :: es')).exposition name).Shows c →
        c.source.owner? ≠ some d.instruments.owner := by
  intro n
  have hn : n.Coherent := coherent_start.run es
  refine ⟨closeAnswersAlong_of_open hd (hn r d hd) hopen, fun e he => ?_⟩
  have hclosed : n.ClosedBy r e d := closedBy_of_tries hn (releasing_start.run coherent_start es)
    (staffed_start.run es) hd hopen he
  refine ⟨hclosed, fun es' hforeign name c hc => ?_⟩
  obtain ⟨d', hd', hd'closed, _⟩ := hclosed.stands es'
  have hexporting : (n.run (e :: es')).Exporting := by
    have hrun : n.run (e :: es') = start.run (es ++ e :: es') := (run_append start es _).symm
    rw [hrun]
    exact exporting_start.run hforeign
  obtain ⟨ms, hrun⟩ := exists_registryAt_run hd (e :: es')
  obtain rfl := Option.some.inj (hd'.symm.trans hrun)
  rw [← Dynamic.owner_run d ms]
  exact hexporting.not_shown hd' hd'closed hc

theorem close_is_final_small : ∃ d, (start.run smallRun).registryAt 0 = some d ∧
    ((start.run smallRun).closeAnswersAlong 0 [.close (.dynamic 0), .streamEnd 0]).length = 2 ∧
    (∃ k, (start.run smallRun).closeAnswersAlong 0 [.close (.dynamic 0), .streamEnd 0] =
      .ok () :: List.replicate k (.error (.lifecycle .alreadyClosed))) ∧
    (start.run smallRun).ClosedBy 0 (.close (.dynamic 0)) d := by
  have hstate : ((start.run smallRun).registryAt 0).any (fun d => !d.closed) = true := by
    decide +kernel
  have hlength : ((start.run smallRun).closeAnswersAlong 0
      [.close (.dynamic 0), .streamEnd 0]).length = 2 := by
    decide +kernel
  obtain ⟨d, hd, hopen⟩ := (Option.any_eq_true ..).mp hstate
  obtain ⟨hanswers, hclosed⟩ := close_is_final smallRun 0 d hd (by simpa using hopen)
  obtain ⟨_, _, ⟨_, hnone⟩ | ⟨_, hsome⟩⟩ := hanswers [.close (.dynamic 0), .streamEnd 0]
  · rw [hnone] at hlength
    cases hlength
  · exact ⟨d, hd, hlength, hsome, (hclosed (.close (.dynamic 0)) rfl).1⟩

/-- A registry follows a service, and is due to be closed while its update loop reads that nothing is
there any more. -/
def smallRead : List Event :=
  [.feed (.push (some ⟨1, smallDocument 97⟩) 0),
   .addInitializer ⟨some .service, "namespaces", Span.zero, "app", Span.ofSeconds 60, "main"⟩,
   .call 0, .turn (.attempt 0), .closeOnRead 0, .feed (.push none 1)]

/-- What the loop was reading is counted although the registry has been closed meanwhile, and no signal
comes any more. -/
theorem counted_after_close : ∃ (m : Node) (content : Option Value),
    (start.run smallRead).stepUpdates 0 = m.wake 0 content ∧
    (m.registryAt 0).any (fun d => d.closed && d.instruments.rejected = 0) = true ∧
    m.signal .feed = .ended ∧
    ((m.wake 0 content).registryAt 0).any (fun d => d.closed && d.instruments.rejected = 1) = true := by
  have hstate : ((start.run smallRead).followers[0]?).any (fun f => f.remote = .feed &&
      !f.registry.closed) = true := by
    decide +kernel
  have hsignal : ((start.run smallRead).takeSignal .feed).2 = .changed := by
    decide +kernel
  obtain ⟨f, hf, hknown⟩ := (Option.any_eq_true ..).mp hstate
  obtain ⟨hremote, hopen⟩ : f.remote = .feed ∧ f.registry.closed = false := by simpa using hknown
  have hstep := stepUpdates_of_changed hf hopen (hremote ▸ hsignal)
  rw [hremote] at hstep
  exact ⟨_, _, hstep, by decide +kernel, by decide +kernel, by decide +kernel⟩

end Node

end NamespaceTopology
