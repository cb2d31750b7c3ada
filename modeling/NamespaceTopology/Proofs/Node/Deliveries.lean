import NamespaceTopology.Proofs.Node.Updates
import NamespaceTopology.Proofs.Registry.Deliveries

set_option autoImplicit false

/-!
What a watch on a registry of a node observes along a run.
-/
namespace NamespaceTopology.Node

open NamespaceTopology.Dynamic (Move Observed)
open NamespaceTopology.Mark (allApplied Answered KeptUp)

def served (r : Nat) (n : Node) : Option (Value × Topology) := (n.registryAt r).bind Dynamic.served

def marksAlong (r id : Nat) : Node → List Event → List Mark
  | _, [] => []
  | n, e :: es =>
    Mark.leave (n.answer (.dynamic r) id e) (n.served r) ((n.occur e).served r) ++
      marksAlong r id (n.occur e) es

def deliveredAlong (source : Source) (id : Nat) : Node → List Event → List Item
  | _, [] => []
  | n, e :: es =>
    ((n.answer source id e).bind Delivery.value?).toList ++ deliveredAlong source id (n.occur e) es

theorem served_of_registryAt {r : Nat} {n : Node} {d : Dynamic} (hd : n.registryAt r = some d) :
    n.served r = d.served := by
  rw [served, hd]
  rfl

theorem value?_map {α β : Type} (f : α → β) (d : Delivery α) :
    (d.map f).value? = d.value?.map f := by
  cases d <;> rfl

theorem leave_map {α β : Type} (f : α → β) (answer : Option (Delivery α))
    (before after : Option (Value × Topology)) :
    Mark.leave (answer.map (Delivery.map f)) before after = Mark.leave answer before after := by
  cases answer with
  | none => rfl
  | some d => cases d <;> rfl

theorem Traced.observed {r id : Nat} {n : Node} {e : Event} {d k : Dynamic} {last : Option Move}
    (ht : Traced r n e d k last) (hco : d.Coherent) {marks : List Mark}
    {taken : List (Value × Topology)} (h : Observed id marks taken d) :
    ∃ more, Observed id (marks ++
        Mark.leave (n.answer (.dynamic r) id e) d.served (k.run last.toList).served)
        (taken ++ more) (k.run last.toList) ∧
      ((n.answer (.dynamic r) id e).bind Delivery.value?).toList =
        more.map fun p => .topology p.2 := by
  have hk := ht.coherent hco
  have hserved := (ht.alike hco).served
  have hends : Observed id marks taken k := by
    obtain ⟨ms, hms, rfl⟩ := ht.ends
    exact h.ends hco hms
  rw [ht.answer id, ← hserved]
  cases last with
  | none =>
    refine ⟨[], ?_, rfl⟩
    change Observed id (marks ++ Mark.leave (none : Option (Delivery Item)) k.served k.served) _ k
    rw [List.append_nil, Mark.leave_quiet, List.append_nil]
    exact hends
  | some m =>
    obtain ⟨more, hmore, hvalues⟩ := hends.after hk m
    refine ⟨more, ?_, ?_⟩
    · rw [Option.bind_some, leave_map]
      exact hmore
    · have hmap : (more.map Prod.snd).map Item.topology = more.map fun p => .topology p.2 :=
        List.map_map
      rw [Option.bind_some, ← hmap, ← hvalues]
      cases k.answer id m with
      | none => rfl
      | some x =>
        rw [Option.map_some, Option.bind_some, Option.bind_some, value?_map]
        cases x.value? <;> rfl

theorem exists_observed {r id : Nat} {n : Node} {d : Dynamic} (hd : n.registryAt r = some d)
    (hco : d.Coherent) {marks : List Mark} {taken : List (Value × Topology)}
    (h : Observed id marks taken d) (es : List Event) :
    ∃ d' more, (n.run es).registryAt r = some d' ∧
      Observed id (marks ++ n.marksAlong r id es) (taken ++ more) d' ∧
      n.deliveredAlong (.dynamic r) id es = more.map fun p => .topology p.2 := by
  induction es generalizing n d marks taken with
  | nil =>
    refine ⟨d, [], hd, ?_, rfl⟩
    rw [marksAlong, List.append_nil, List.append_nil]
    exact h
  | cons e es ih =>
    obtain ⟨k, last, ht⟩ := exists_traced hd e
    obtain ⟨first, hfirst, hdelivered⟩ := ht.observed hco h
    obtain ⟨d', rest, hd', hrest, hdelivered'⟩ :=
      ih ht.registry ((ht.coherent hco).run last.toList) hfirst
    refine ⟨d', first ++ rest, hd', ?_, ?_⟩
    · rw [marksAlong, served_of_registryAt hd, served_of_registryAt ht.registry, ← List.append_assoc,
        ← List.append_assoc]
      exact hrest
    · rw [deliveredAlong, hdelivered, hdelivered', List.map_append]

/-- What a registry delivers by an event is what it serves. -/
theorem Traced.topology_of_answer {r id : Nat} {n : Node} {e : Event} {d k : Dynamic}
    {last : Option Move} (ht : Traced r n e d k last) (hco : d.Coherent) {item : Item}
    (h : n.answer (.dynamic r) id e = some (.value item)) :
    item = .topology ((n.occur e).topology (.dynamic r)) := by
  rw [ht.answer id] at h
  obtain ⟨m, rfl, hm⟩ := Option.bind_eq_some_iff.mp h
  obtain ⟨x, hx, hitem⟩ := Option.map_eq_some_iff.mp hm
  obtain ⟨rfl, rfl⟩ := Dynamic.answer_eq_some hx
  rw [topology_of_registryAt ht.registry]
  cases hvalue : (k.hub.next id).2 with
  | value t =>
    rw [hvalue] at hitem
    obtain rfl := (ht.coherent hco).topology_of_next hvalue
    exact (Delivery.value.inj hitem).symm
  | ended =>
    rw [hvalue] at hitem
    cases hitem
  | waiting =>
    rw [hvalue] at hitem
    cases hitem

theorem registryAt_of_watch {r id : Nat} {n m : Node} (h : n.watch (.dynamic r) = .ok (m, id)) :
    ∃ d d', n.registryAt r = some d ∧ d.watch = .ok (d', id) ∧ m.registryAt r = some d' := by
  simp only [watch] at h
  cases hf : n.followers[r]? with
  | none =>
    rw [hf] at h
    cases h
  | some f =>
    simp only [hf] at h
    have hd : n.registryAt r = some f.registry := by
      rw [registryAt, hf]
      rfl
    cases hw : f.registry.watch with
    | error e =>
      rw [hw] at h
      cases h
    | ok p =>
      obtain ⟨d', i⟩ := p
      rw [hw] at h
      obtain ⟨rfl, rfl⟩ := Prod.mk.inj (Except.ok.inj h)
      refine ⟨f.registry, d', hd, hw, ?_⟩
      rw [registryAt_modifyFollower, if_pos rfl, hf]
      rfl

/-- What a watch delivers was applied, or served when it started, and comes in that order, each time
once, with versions that rise. It is what the registry serves at that moment. While the watch is asked
between every two applications nothing is left out but what waits to be delivered. -/
theorem watch_delivers_applied (es es' : List Event) (r id : Nat) (n : Node)
    (hw : (start.run es).watch (.dynamic r) = .ok (n, id)) :
    let marks := ((start.run es).served r).toList.map .applied ++ n.marksAlong r id es'
    (∃ taken : List (Value × Topology),
      n.deliveredAlong (.dynamic r) id es' = taken.map (fun p => .topology p.2) ∧
      taken.Sublist (allApplied marks) ∧
      taken.Pairwise (fun p q => p.1.version < q.1.version) ∧
      (KeptUp marks → Answered marks → taken = allApplied marks) ∧
      (KeptUp marks → ∀ item, (n.run es').peek (.dynamic r) id = .value item →
        ∃ p, allApplied marks = taken ++ [p] ∧ item = .topology p.2)) ∧
    ∀ e item, (n.run es').answer (.dynamic r) id e = some (.value item) →
      item = .topology (((n.run es').occur e).topology (.dynamic r)) := by
  intro marks
  obtain ⟨d, d', hd, hwatch, hd'⟩ := registryAt_of_watch hw
  have hco : d.Coherent := coherent_start.run es r d hd
  have hco' : d'.Coherent := by
    have hafter := hco.after .watch
    simpa only [Dynamic.after, hwatch] using hafter
  have hfirst := Dynamic.observed_watch hco hwatch
  rw [← served_of_registryAt hd] at hfirst
  obtain ⟨last, taken, hlast, hobserved, hdelivered⟩ := exists_observed hd' hco' hfirst es'
  have hcoLast : last.Coherent := by
    obtain ⟨ms, hrun⟩ := exists_registryAt_run hd' es'
    obtain rfl := Option.some.inj (hlast.symm.trans hrun)
    exact hco'.run ms
  refine ⟨⟨taken, hdelivered, hobserved.sublist, hobserved.ascending.sublist hobserved.sublist,
    hobserved.settled, ?_⟩, ?_⟩
  · intro hkept item hitem
    rw [peek_dynamic hlast] at hitem
    cases hpeek : last.hub.peek id with
    | value t =>
      rw [hpeek] at hitem
      obtain ⟨v, hv⟩ := hobserved.pending hcoLast hkept hpeek
      exact ⟨(v, t), hv, (Delivery.value.inj hitem).symm⟩
    | ended =>
      rw [hpeek] at hitem
      cases hitem
    | waiting =>
      rw [hpeek] at hitem
      cases hitem
  · intro e item hitem
    obtain ⟨k, move, ht⟩ := exists_traced hlast e
    exact ht.topology_of_answer hcoLast hitem

theorem watch_delivers_applied_small : ∃ n, ∃ taken : List (Value × Topology),
    (start.run smallRun).watch (.dynamic 0) = .ok (n, 1) ∧
    n.deliveredAlong (.dynamic 0) 1 smallWatching = taken.map (fun p => .topology p.2) ∧
    taken.length = 2 ∧ taken.Pairwise fun p q => p.1.version < q.1.version := by
  have hfirst : ((start.run smallRun).watch (.dynamic 0)).toOption.map Prod.snd = some 1 := by
    decide +kernel
  have hlength : (((start.run smallRun).occur (.watch (.dynamic 0))).deliveredAlong (.dynamic 0) 1
      smallWatching).length = 2 := by
    decide +kernel
  cases hw : (start.run smallRun).watch (.dynamic 0) with
  | error e =>
    rw [hw] at hfirst
    cases hfirst
  | ok p =>
    obtain ⟨n, id⟩ := p
    rw [hw] at hfirst
    obtain rfl := Option.some.inj hfirst
    have hn : (start.run smallRun).occur (.watch (.dynamic 0)) = n := by
      simp only [occur, hw]
    rw [hn] at hlength
    obtain ⟨⟨taken, hdelivered, _, hrising, _⟩, _⟩ :=
      watch_delivers_applied smallRun smallWatching 0 1 n hw
    rw [hdelivered, List.length_map] at hlength
    exact ⟨n, taken, rfl, hdelivered, hlength, hrising⟩

end NamespaceTopology.Node
