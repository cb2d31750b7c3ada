import NamespaceTopology.Proofs.Node.Coherence
import NamespaceTopology.Proofs.Registry.Acceptance

set_option autoImplicit false

/-!
The update loop of a registry along a run, whatever else happens in it: the registry ends up with what
the fold over the contents gives that the loop took in.
-/
namespace NamespaceTopology.Node

open NamespaceTopology.Dynamic (Move Reached publishedBetween)

def handedAlong (r : Nat) : Node → List Event → List (Option Value)
  | _, [] => []
  | n, e :: es => n.handed r e ++ handedAlong r (n.occur e) es

def latest (r : Nat) (n : Node) : Option Topology := (n.registryAt r).bind fun d => d.hub.latest

def publishedAlong (r : Nat) : Node → List Event → List Topology
  | _, [] => []
  | n, e :: es =>
    publishedBetween (n.latest r) ((n.occur e).latest r) ++ publishedAlong r (n.occur e) es

/-- Contents of every kind can be handed out in every order. -/
theorem handedAlong_wakes (r : Nat) (n : Node) (contents : List (Option Value)) :
    n.handedAlong r (contents.map (.wake r)) = contents := by
  induction contents generalizing n with
  | nil => rfl
  | cons content contents ih =>
    rw [List.map_cons, handedAlong, ih, handed, if_pos rfl]
    rfl

theorem latest_of_registryAt {r : Nat} {n : Node} {d : Dynamic} (hd : n.registryAt r = some d) :
    n.latest r = d.hub.latest := by
  rw [latest, hd]
  rfl

/-- A registry does not go away. -/
theorem exists_registryAt_run {r : Nat} {n : Node} {d : Dynamic} (hd : n.registryAt r = some d)
    (es : List Event) : ∃ ms, (n.run es).registryAt r = some (d.run ms) := by
  induction es generalizing n d with
  | nil => exact ⟨[], hd⟩
  | cons e es ih =>
    obtain ⟨k, last, htraced⟩ := exists_traced hd e
    obtain ⟨ms, _, rfl⟩ := htraced.ends
    obtain ⟨ms', hrun⟩ := ih htraced.registry
    refine ⟨ms ++ last.toList ++ ms', ?_⟩
    rw [Dynamic.run_append, Dynamic.run_append]
    exact hrun

theorem exists_registryAt_occur {r : Nat} {n : Node} {d : Dynamic} (hd : n.registryAt r = some d)
    (e : Event) : ∃ ms, (n.occur e).registryAt r = some (d.run ms) := exists_registryAt_run hd [e]

/-- A registry that is open after a run has been open all along. -/
theorem open_of_run {r : Nat} {n : Node} {d d' : Dynamic} (hd : n.registryAt r = some d)
    (hco : d.Coherent) {es : List Event} (hd' : (n.run es).registryAt r = some d')
    (hopen : d'.closed = false) : d.closed = false := by
  obtain ⟨ms, hrun⟩ := exists_registryAt_run hd es
  rw [hd'] at hrun
  obtain rfl := Option.some.inj hrun
  cases hc : d.closed with
  | false => rfl
  | true =>
    rw [Dynamic.closed_run hco hc ms] at hopen
    cases hopen

theorem Traced.coherent {r : Nat} {n : Node} {e : Event} {d k : Dynamic} {last : Option Move}
    (ht : Traced r n e d k last) (hco : d.Coherent) : k.Coherent := by
  obtain ⟨ms, _, rfl⟩ := ht.ends
  exact hco.run ms

theorem Traced.alike {r : Nat} {n : Node} {e : Event} {d k : Dynamic} {last : Option Move}
    (ht : Traced r n e d k last) (hco : d.Coherent) : Dynamic.Alike d k := by
  obtain ⟨ms, hms, rfl⟩ := ht.ends
  exact Dynamic.alike_run hco (Dynamic.contents_of_isEnd hms)

theorem Traced.reached {r : Nat} {n : Node} {e : Event} {d k : Dynamic} {last : Option Move}
    (ht : Traced r n e d k last) (hco : d.Coherent) (hopen : (k.run last.toList).closed = false)
    {base : UInt64} {p : Progress} (h : Reached base p d) :
    Reached base (p.takeAll (n.handed r e)) (k.run last.toList) ∧
      (p.takeAll (n.handed r e)).published =
        p.published ++ publishedBetween d.hub.latest (k.run last.toList).hub.latest := by
  have hk := ht.coherent hco
  have halike := ht.alike hco
  rw [ht.handed]
  cases hlast : last.bind Move.content? with
  | none =>
    have hms : last.toList.filterMap Move.content? = [] := by
      cases last with
      | none => rfl
      | some m => exact List.filterMap_cons_none hlast
    have hquiet := halike.trans (Dynamic.alike_run hk hms)
    rw [hquiet.latest, Dynamic.publishedBetween_self, List.append_nil]
    exact ⟨h.alike hquiet, rfl⟩
  | some content =>
    obtain ⟨m, rfl, hm⟩ := Option.bind_eq_some_iff.mp hlast
    obtain rfl := Move.content?_eq_some hm
    have hbefore : k.closed = false := by
      cases hc : k.closed with
      | false => rfl
      | true =>
        rw [Dynamic.closed_run hk hc] at hopen
        cases hopen
    have hstep := (h.alike halike).receive hk hbefore content
    rw [halike.latest] at hstep
    exact hstep

theorem reached_run {r : Nat} {n : Node} {d d' : Dynamic} (hd : n.registryAt r = some d)
    (hco : d.Coherent) (es : List Event) (hd' : (n.run es).registryAt r = some d')
    (hopen : d'.closed = false) {base : UInt64} {p : Progress} (h : Reached base p d) :
    Reached base (p.takeAll (n.handedAlong r es)) d' ∧
      (p.takeAll (n.handedAlong r es)).published = p.published ++ n.publishedAlong r es := by
  induction es generalizing n d p with
  | nil =>
    have hsame : d = d' := Option.some.inj (hd.symm.trans hd')
    subst hsame
    exact ⟨h, (List.append_nil _).symm⟩
  | cons e es ih =>
    obtain ⟨k, last, htraced⟩ := exists_traced hd e
    have hmid := (htraced.coherent hco).run last.toList
    have hreached := htraced.reached hco (open_of_run htraced.registry hmid hd' hopen) h
    have hrest := ih htraced.registry hmid hd' hreached.1
    rw [handedAlong, Progress.takeAll_append, publishedAlong, latest_of_registryAt hd,
      latest_of_registryAt htraced.registry, ← List.append_assoc, ← hreached.2]
    exact hrest

/-- An open registry stays open while it only takes contents in. -/
theorem exists_open_wakes {r : Nat} {n : Node} {d : Dynamic} (hd : n.registryAt r = some d)
    (hopen : d.closed = false) (contents : List (Option Value)) :
    ∃ d', (n.run (contents.map (.wake r))).registryAt r = some d' ∧ d'.closed = false := by
  induction contents generalizing n d with
  | nil => exact ⟨d, hd, hopen⟩
  | cons content contents ih =>
    have hnext : (n.occur (.wake r content)).registryAt r = some (d.receive content).1 := by
      change (n.wake r content).registryAt r = _
      rw [registryAt_wake, if_pos rfl, hd]
      rfl
    exact ih hnext ((Dynamic.closed_receive d content).trans hopen)

/-- Along every run the update loop of an open registry does what the fold over the contents does, and
any contents can come to it. A content that brings something replaces value and topology together and
is published once. Any other is counted and changes nothing else, whoever watches. -/
theorem updates_follow_fold (es : List Event) (r : Nat) (d : Dynamic)
    (hd : (start.run es).registryAt r = some d) (hopen : d.closed = false) :
    (∀ es' d', ((start.run es).run es').registryAt r = some d' → d'.closed = false →
      let p := Progress.takeAll ⟨d.value, d.topology, [], 0⟩ ((start.run es).handedAlong r es')
      d'.value = p.value ∧ d'.topology = p.topology ∧
      (start.run es).publishedAlong r es' = p.published ∧
      d'.instruments.rejected = d.instruments.rejected + UInt64.ofNat p.rejected) ∧
    (∀ contents, (start.run es).handedAlong r (contents.map (.wake r)) = contents ∧
      ∃ d', ((start.run es).run (contents.map (.wake r))).registryAt r = some d' ∧
        d'.closed = false) ∧
    (∀ content v t, brought content d.value d.topology = some (v, t) →
      ∃ hub, d.hub.update t = .ok hub ∧
        (d.receive content).1 = { d with value := some v, topology := t, hub }) ∧
    (∀ content, brought content d.value d.topology = none →
      (d.receive content).1 = { d with instruments := d.instruments.count 1 }) ∧
    (d.value = none → ∀ content v t, brought content d.value d.topology = some (v, t) ↔
      content = some v ∧ v.topology = .ok t) := by
  have hco : d.Coherent := coherent_start.run es r d hd
  refine ⟨?_, ?_, ?_, ?_, ?_⟩
  · intro es' d' hd' hopen' p
    have hbase : Reached d.instruments.rejected ⟨d.value, d.topology, [], 0⟩ d :=
      ⟨rfl, rfl, (UInt64.add_zero _).symm⟩
    obtain ⟨hreached, hpublished⟩ := reached_run hd hco es' hd' hopen' hbase
    exact ⟨hreached.value, hreached.topology, hpublished.symm, hreached.rejected⟩
  · intro contents
    exact ⟨handedAlong_wakes r _ contents, exists_open_wakes hd hopen contents⟩
  · intro content v t hb
    exact Dynamic.receive_of_brought hco hopen hb
  · intro content hb
    exact Dynamic.receive_of_not_brought hco hopen hb
  · intro hv content v t
    exact Dynamic.brought_of_unstored hco hv content v t

theorem updates_follow_fold_small : ∃ d d', (start.run smallRun).registryAt 0 = some d ∧
    ((start.run smallRun).run smallUpdates).registryAt 0 = some d' ∧
    (start.run smallRun).handedAlong 0 smallUpdates = [some ⟨2, smallDocument 98⟩, none] ∧
    d'.value = (Progress.takeAll ⟨d.value, d.topology, [], 0⟩
      [some ⟨2, smallDocument 98⟩, none]).value := by
  have hbefore : ((start.run smallRun).registryAt 0).any (fun d => !d.closed) = true := by
    decide +kernel
  have hafter : (((start.run smallRun).run smallUpdates).registryAt 0).any (fun d => !d.closed) =
      true := by
    decide +kernel
  have hhanded : (start.run smallRun).handedAlong 0 smallUpdates =
      [some ⟨2, smallDocument 98⟩, none] := by
    decide +kernel
  obtain ⟨d, hd, hopen⟩ := (Option.any_eq_true ..).mp hbefore
  obtain ⟨d', hd', hopen'⟩ := (Option.any_eq_true ..).mp hafter
  obtain ⟨hfold, _⟩ := updates_follow_fold smallRun 0 d hd (by simpa using hopen)
  obtain ⟨hvalue, _⟩ := hfold smallUpdates d' hd' (by simpa using hopen')
  rw [hhanded] at hvalue
  exact ⟨d, d', hd, hd', hhanded, hvalue⟩

end NamespaceTopology.Node
