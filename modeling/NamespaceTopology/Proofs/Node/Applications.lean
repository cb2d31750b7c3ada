import Mathlib.Data.List.Chain
import NamespaceTopology.Proofs.Node.Deliveries
import NamespaceTopology.Proofs.Registry.Closing

set_option autoImplicit false

/-!
What is applied to a registry along a run. It is newer than all that the registry has stored, and it
describes another topology than what was served just before. Neither says the same of what is not
applied: an identical update leaves no trace of its version, and one who skips an update may see the
same topology before and after.
-/
namespace NamespaceTopology

namespace Dynamic

theorem value_eq_served (d : Dynamic) : d.value = d.served.map Prod.fst := by
  rw [served, Option.map_map]
  exact Option.map_id'.symm

/-- A move leaves what is served, or it applies what the update loop reads. -/
theorem served_after_cases {d : Dynamic} (hd : d.Coherent) (m : Move) :
    (d.after m).served = d.served ∨ ∃ v t, m = .receive (some v) ∧ d.closed = false ∧
      v.isNewer d.value = true ∧ v.topology = .ok t ∧ t ≠ d.topology ∧
      (d.after m).served = some (v, t) := by
  cases hm : m.content? with
  | none => exact Or.inl (alike_after hd hm).served
  | some content =>
    obtain rfl := Move.content?_eq_some hm
    have heq : d.after (.receive content) = (d.receive content).1 := rfl
    rw [heq]
    rcases receive_cases hd content with ⟨v, t, hub, hok, _, hr⟩ | ⟨_, _, hr⟩ | ⟨_, hr⟩
    · obtain ⟨rfl, hnewer, ht, hne, hopen⟩ := examine_eq_ok.mp hok
      refine Or.inr ⟨v, t, rfl, hopen, hnewer, ht, hne, ?_⟩
      rw [hr]
      rfl
    · rw [hr]
      exact Or.inl rfl
    · rw [hr]
      exact Or.inl rfl

theorem exists_value_run {d : Dynamic} (hd : d.Coherent) {w : Value} (hw : d.value = some w)
    (ms : List Move) : ∃ w', (d.run ms).value = some w' ∧ w.version ≤ w'.version := by
  induction ms generalizing d w with
  | nil => exact ⟨w, hw, Int64.le_refl _⟩
  | cons m ms ih =>
    rcases served_after_cases hd m with hsame | ⟨v, t, _, _, hnewer, _, _, hserved⟩
    · have hkept : (d.after m).value = some w := by
        rw [value_eq_served, hsame, ← value_eq_served, hw]
      exact ih (hd.after m) hkept
    · have hv : (d.after m).value = some v := by
        rw [value_eq_served, hserved]
        rfl
      obtain ⟨w', hw', hle⟩ := ih (hd.after m) hv
      have hlt := (Value.isNewer_iff v d.value).mp hnewer w hw
      exact ⟨w', hw', Int64.le_trans (Int64.le_of_lt hlt) hle⟩

end Dynamic

namespace Node

open NamespaceTopology.Dynamic (Move)
open NamespaceTopology.Mark (allApplied Answered KeptUp)

def applied? (r : Nat) (n : Node) (e : Event) : Option (Value × Topology) :=
  if (n.occur e).served r = n.served r then none else (n.occur e).served r

theorem Traced.served_cases {r : Nat} {n : Node} {e : Event} {d k : Dynamic} {last : Option Move}
    (ht : Traced r n e d k last) (hco : d.Coherent) :
    (k.run last.toList).served = d.served ∨ ∃ v t, n.handed r e = [some v] ∧ k.closed = false ∧
      v.isNewer d.value = true ∧ v.topology = .ok t ∧ t ≠ d.topology ∧
      (k.run last.toList).served = some (v, t) := by
  have halike := ht.alike hco
  have hhanded := ht.handed
  cases last with
  | none => exact Or.inl halike.served
  | some m =>
    rcases Dynamic.served_after_cases (ht.coherent hco) m with
      hsame | ⟨v, t, rfl, hopen, hnewer, hread, hne, hserved⟩
    · exact Or.inl (hsame.trans halike.served)
    · rw [halike.value] at hnewer
      rw [halike.topology] at hne
      exact Or.inr ⟨v, t, hhanded, hopen, hnewer, hread, hne, hserved⟩

theorem isNewer_of_applied {r : Nat} {n : Node} {e : Event} {d : Dynamic}
    (hd : n.registryAt r = some d) (hco : d.Coherent) {v : Value} {t : Topology}
    (h : n.applied? r e = some (v, t)) : d.closed = false ∧ v.isNewer d.value = true := by
  obtain ⟨k, last, ht⟩ := exists_traced hd e
  rw [applied?, served_of_registryAt hd, served_of_registryAt ht.registry] at h
  split at h
  · cases h
  next hchanged =>
    obtain ⟨u, t', _, hopen, hnewer, _, _, hserved⟩ := (ht.served_cases hco).resolve_left hchanged
    obtain ⟨rfl, rfl⟩ := Prod.mk.inj (Option.some.inj (h.symm.trans hserved))
    refine ⟨?_, hnewer⟩
    obtain ⟨ms, _, rfl⟩ := ht.ends
    cases hclosed : d.closed with
    | false => rfl
    | true =>
      rw [Dynamic.closed_run hco hclosed ms] at hopen
      cases hopen

/-! ### Versions -/

/-- What comes to an open registry is stored by it, or not newer than what it has stored, or unreadable,
or identical to what it serves. -/
theorem handed_cases {r : Nat} {n : Node} {e : Event} {d : Dynamic} (hd : n.registryAt r = some d)
    (hco : d.Coherent) {w : Value} {u : Topology} (hw : some w ∈ n.handed r e)
    (hu : w.topology = .ok u) : ∃ d', (n.occur e).registryAt r = some d' ∧
      (d'.closed = true ∨ d'.value = some w ∨ (∃ x, d.value = some x ∧ w.version ≤ x.version) ∨
        (w.isNewer d.value = true ∧ u = d.topology)) := by
  obtain ⟨k, last, ht⟩ := exists_traced hd e
  refine ⟨_, ht.registry, ?_⟩
  have halike := ht.alike hco
  rw [ht.handed, Option.mem_toList] at hw
  obtain ⟨m, rfl, hm⟩ := Option.bind_eq_some_iff.mp hw
  obtain rfl := Move.content?_eq_some hm
  have hlast : k.run (some (Move.receive (some w))).toList = (k.receive (some w)).1 := rfl
  rw [hlast]
  cases hclosed : k.closed with
  | true => exact Or.inl ((Dynamic.closed_receive k _).trans hclosed)
  | false =>
    right
    cases hnewer : w.isNewer d.value with
    | false =>
      right
      left
      have hnot : ¬ ∀ x, d.value = some x → x.version < w.version := by
        rw [← Value.isNewer_iff, hnewer]
        simp
      cases hv : d.value with
      | none =>
        rw [hv] at hnot
        exact absurd (fun x hx => by cases hx) hnot
      | some x =>
        refine ⟨x, rfl, Int64.not_lt.mp fun hlt => hnot ?_⟩
        intro y hy
        rw [hv] at hy
        obtain rfl := Option.some.inj hy
        exact hlt
    | true =>
      by_cases hsame : u = d.topology
      · exact Or.inr (Or.inr ⟨rfl, hsame⟩)
      · left
        have hbrought : brought (some w) k.value k.topology = some (w, u) := by
          rw [halike.value, halike.topology]
          exact brought_eq_some.mpr ⟨rfl, (Value.isNewer_iff w d.value).mp hnewer, hu, hsame⟩
        obtain ⟨hub, _, heq⟩ := Dynamic.receive_of_brought (ht.coherent hco) hclosed hbrought
        rw [heq]

/-- What is applied is newer than all that the registry stored at some time before, and newer than all
readable values that it got before, but for those that were newer themselves and identical to what was
served. -/
theorem applied_is_fresh (es es' : List Event) (r : Nat) (d : Dynamic)
    (hd : (start.run es).registryAt r = some d) (e : Event) (v : Value) (t : Topology)
    (h : ((start.run es).run es').applied? r e = some (v, t)) :
    (∀ w, d.value = some w → w.version < v.version) ∧
    ∀ first rest, es' = first :: rest → ∀ w u, some w ∈ (start.run es).handed r first →
      w.topology = .ok u →
      w.version < v.version ∨ (w.isNewer d.value = true ∧ u = d.topology) := by
  have hco : d.Coherent := coherent_start.run es r d hd
  -- Whatever a registry stores at any time before is older.
  have hstored (n : Node) (d : Dynamic) (hd : n.registryAt r = some d) (hco : d.Coherent)
      (es' : List Event) (h : (n.run es').applied? r e = some (v, t)) :
      d.closed = false ∧ ∀ w, d.value = some w → w.version < v.version := by
    obtain ⟨ms, hrun⟩ := exists_registryAt_run hd es'
    obtain ⟨hopen, hnewer⟩ := isNewer_of_applied hrun (hco.run ms) h
    refine ⟨open_of_run hd hco hrun hopen, fun w hw => ?_⟩
    obtain ⟨w', hw', hle⟩ := Dynamic.exists_value_run hco hw ms
    have hlt := (Value.isNewer_iff v _).mp hnewer w' hw'
    exact Int64.lt_of_le_of_lt hle hlt
  refine ⟨(hstored _ d hd hco es' h).2, ?_⟩
  rintro first rest rfl w u hw hu
  obtain ⟨d', hd', hcases⟩ := handed_cases hd hco hw hu
  have hco' : d'.Coherent := (coherent_start.run es).occur first r d' hd'
  obtain ⟨hopen, hless⟩ := hstored _ d' hd' hco' rest h
  rcases hcases with hclosed | hvalue | ⟨x, hx, hle⟩ | hidentical
  · rw [hclosed] at hopen
    cases hopen
  · exact Or.inl (hless w hvalue)
  · exact Or.inl (Int64.lt_of_le_of_lt hle ((hstored _ d hd hco _ h).2 x hx))
  · exact Or.inr hidentical

def smallAgain : List Event := [.turn (.updates 0), .store (.set "namespaces" (smallDocument 98))]

theorem applied_is_fresh_small : ∃ d v t, (start.run smallRun).registryAt 0 = some d ∧
    ((start.run smallRun).run smallAgain).applied? 0 (.turn (.updates 0)) = some (v, t) ∧
    d.value = some ⟨1, smallDocument 97⟩ ∧ 1 < v.version := by
  have hregistry : ((start.run smallRun).registryAt 0).any (fun d =>
      d.value = some ⟨1, smallDocument 97⟩) = true := by
    decide +kernel
  have happlied : (((start.run smallRun).run smallAgain).applied? 0 (.turn (.updates 0))).isSome =
      true := by
    decide +kernel
  obtain ⟨d, hd, hvalue⟩ := (Option.any_eq_true ..).mp hregistry
  obtain ⟨⟨v, t⟩, h⟩ := Option.isSome_iff_exists.mp happlied
  have hvalue : d.value = some ⟨1, smallDocument 97⟩ := by simpa using hvalue
  obtain ⟨hstored, _⟩ := applied_is_fresh smallRun smallAgain 0 d hd (.turn (.updates 0)) v t h
  have hlt := hstored _ hvalue
  exact ⟨d, v, t, hd, h, hvalue, hlt⟩

/-- An update of version 5 is written that is identical to what is served. -/
def smallIdentical : List Event :=
  smallRun ++ [.store (.setWithVersion "namespaces" 5 (smallDocument 97))]

/-- That update is read, and another one of version 3 is written. -/
def smallReplay : List Event :=
  [.turn (.updates 0), .store (.setWithVersion "namespaces" 3 (smallDocument 98))]

/-- The version of an identical update is forgotten, so an older update may be applied after it. -/
theorem older_applied_after_identical : ∃ w u v t,
    some w ∈ (start.run smallIdentical).handed 0 (.turn (.updates 0)) ∧ w.topology = .ok u ∧
    ((start.run smallIdentical).run smallReplay).applied? 0 (.turn (.updates 0)) = some (v, t) ∧
    ¬ w.version < v.version := by
  have hhanded : some ⟨5, smallDocument 97⟩ ∈
      (start.run smallIdentical).handed 0 (.turn (.updates 0)) := by
    decide +kernel
  have hread : (Value.topology ⟨5, smallDocument 97⟩).toOption.isSome = true := by
    decide +kernel
  have happlied : (((start.run smallIdentical).run smallReplay).applied? 0 (.turn (.updates 0))).any
      (fun p => p.1.version = 3) = true := by
    decide +kernel
  cases hu : Value.topology ⟨5, smallDocument 97⟩ with
  | error cause =>
    rw [hu] at hread
    cases hread
  | ok u =>
    obtain ⟨⟨v, t⟩, h, hv⟩ := (Option.any_eq_true ..).mp happlied
    have hv : v.version = 3 := by simpa using hv
    refine ⟨⟨5, smallDocument 97⟩, u, v, t, hhanded, hu, h, ?_⟩
    rw [hv]
    decide

/-! ### Topologies -/

abbrev Differ (p q : Value × Topology) : Prop := p.2 ≠ q.2

theorem allApplied_leave {α : Type} (answer : Option (Delivery α))
    (before after : Option (Value × Topology)) :
    allApplied (Mark.leave answer before after) = if after = before then [] else after.toList := by
  have hserved : allApplied (if after = before then [] else after.toList.map .applied) =
      if after = before then [] else after.toList := by
    split
    · rfl
    · cases after <;> rfl
  rw [← hserved]
  cases answer with
  | none => rfl
  | some d => cases d <;> rfl

theorem differ_along {r : Nat} {n : Node} {d : Dynamic} (hd : n.registryAt r = some d)
    (hco : d.Coherent) (id : Nat) (es : List Event) :
    (d.served.toList ++ allApplied (n.marksAlong r id es)).IsChain Differ := by
  induction es generalizing n d with
  | nil =>
    rw [marksAlong]
    cases d.served with
    | none => exact .nil
    | some p => exact .singleton p
  | cons e es ih =>
    obtain ⟨k, last, ht⟩ := exists_traced hd e
    have hrest := ih ht.registry ((ht.coherent hco).run last.toList)
    rw [marksAlong, Mark.allApplied_append, allApplied_leave, served_of_registryAt hd,
      served_of_registryAt ht.registry]
    rcases ht.served_cases hco with hsame | ⟨v, t, _, _, hnewer, _, hne, hserved⟩
    · rw [if_pos hsame, List.nil_append, ← hsame]
      exact hrest
    · rw [hserved] at hrest ⊢
      cases hp : d.served with
      | none => exact hrest
      | some p =>
        obtain ⟨w, hw, rfl⟩ := Option.map_eq_some_iff.mp hp
        have hchanged : some (v, t) ≠ some (w, d.topology) := by
          intro heq
          exact hne (Prod.mk.inj (Option.some.inj heq)).2
        rw [if_neg hchanged]
        exact .cons_cons (Ne.symm hne) hrest

/-- Between two of a list that are the same and stand side by side in a shorter one something else has
been left out. -/
theorem exists_left_out {applied before after : List (Value × Topology)} {p q : Value × Topology}
    (hchain : applied.IsChain Differ)
    (hrising : applied.Pairwise fun p q => p.1.version < q.1.version)
    (htaken : (before ++ p :: q :: after).Sublist applied) (hsame : p.2 = q.2) :
    ∃ u ∈ applied, u ∉ before ++ p :: q :: after ∧ p.1.version < u.1.version ∧
      u.1.version < q.1.version ∧ u.2 ≠ p.2 := by
  have hrisingTaken := hrising.sublist htaken
  obtain ⟨front, back, rfl, _, hback⟩ := List.append_sublist_iff.mp htaken
  obtain ⟨back₁, back₂, rfl, hp, hrest⟩ := List.cons_sublist_iff.mp hback
  obtain ⟨xs, ys, rfl⟩ := List.append_of_mem hp
  obtain ⟨xs', ys', rfl⟩ := List.append_of_mem (hrest.subset List.mem_cons_self)
  have hshape : front ++ (xs ++ p :: ys ++ (xs' ++ q :: ys')) =
      (front ++ xs) ++ p :: ((ys ++ xs') ++ q :: ys') := by simp
  rw [hshape] at hchain hrising ⊢
  have hbetween := hchain.right_of_append
  have hordered := (List.pairwise_append.mp hrising).2.1
  cases hmid : ys ++ xs' with
  | nil =>
    rw [hmid, List.nil_append, List.isChain_cons_cons] at hbetween
    exact absurd hsame hbetween.1
  | cons u mid =>
    rw [hmid, List.cons_append] at hbetween hordered
    obtain ⟨hlater, hordered⟩ := List.pairwise_cons.mp hordered
    have hpu := hlater u List.mem_cons_self
    have huq := (List.pairwise_cons.mp hordered).1 q (List.mem_append_right _ List.mem_cons_self)
    refine ⟨u, by simp, fun hmem => ?_, hpu, huq, Ne.symm (List.isChain_cons_cons.mp hbetween).1⟩
    -- Whatever was taken is not newer than the first or not older than the second.
    obtain ⟨_, hpq, hfirst⟩ := List.pairwise_append.mp hrisingTaken
    obtain ⟨_, hq⟩ := List.pairwise_cons.mp hpq
    rcases List.mem_append.mp hmem with hbefore | hmem
    · exact absurd (Int64.lt_trans hpu (hfirst u hbefore p List.mem_cons_self)) Int64.lt_irrefl
    rcases List.mem_cons.mp hmem with rfl | hmem
    · exact absurd hpu Int64.lt_irrefl
    rcases List.mem_cons.mp hmem with rfl | hafter
    · exact absurd huq Int64.lt_irrefl
    · exact absurd (Int64.lt_trans huq ((List.pairwise_cons.mp hq).1 u hafter)) Int64.lt_irrefl

/-- One who is delivered the same topology twice in a row has skipped a different one in between, for all
that is applied differs from what was served before. Whoever keeps up is delivered all of it, and so never
the same twice in a row. -/
theorem repeats_skip_another (es es' : List Event) (r id : Nat) (n : Node)
    (hw : (start.run es).watch (.dynamic r) = .ok (n, id)) :
    let marks := ((start.run es).served r).toList.map .applied ++ n.marksAlong r id es'
    ∃ taken : List (Value × Topology),
      n.deliveredAlong (.dynamic r) id es' = taken.map (fun p => .topology p.2) ∧
      (∀ before p q after, taken = before ++ p :: q :: after → p.2 = q.2 →
        ∃ u ∈ allApplied marks, u ∉ taken ∧ p.1.version < u.1.version ∧
          u.1.version < q.1.version ∧ u.2 ≠ p.2) ∧
      (KeptUp marks → Answered marks → taken.IsChain Differ) := by
  intro marks
  obtain ⟨d, d', hd, hwatch, hd'⟩ := registryAt_of_watch hw
  have hco : d.Coherent := coherent_start.run es r d hd
  have hco' : d'.Coherent := by
    have hafter := hco.after .watch
    simpa only [Dynamic.after, hwatch] using hafter
  have hserved : d'.served = d.served := by
    have halike := (Dynamic.alike_after hco (m := .watch) rfl).served
    simpa only [Dynamic.after, hwatch] using halike
  have hfirst := Dynamic.observed_watch hco hwatch
  rw [← served_of_registryAt hd] at hfirst
  obtain ⟨_, taken, _, hobserved, hdelivered⟩ := exists_observed hd' hco' hfirst es'
  have hchain : (allApplied marks).IsChain Differ := by
    have happlied : allApplied (((start.run es).served r).toList.map .applied) =
        ((start.run es).served r).toList := by
      cases (start.run es).served r <;> rfl
    rw [Mark.allApplied_append, happlied, served_of_registryAt hd, ← hserved]
    exact differ_along hd' hco' id es'
  refine ⟨taken, hdelivered, ?_, ?_⟩
  · rintro before p q after rfl hsame
    exact exists_left_out hchain hobserved.ascending hobserved.sublist hsame
  · intro hkept hanswered
    rw [List.nil_append] at hobserved
    rw [hobserved.settled hkept hanswered]
    exact hchain

/-- One who watches asks before the registry gets another topology, and again after it has got back the
first one. -/
def smallReturn : List Event :=
  [.next (.dynamic 0) 1, .store (.set "namespaces" (smallDocument 98)), .turn (.updates 0),
    .store (.set "namespaces" (smallDocument 97)), .turn (.updates 0), .next (.dynamic 0) 1]

theorem exists_watch_smallRun : ∃ n, (start.run smallRun).watch (.dynamic 0) = .ok (n, 1) ∧
    (start.run smallRun).occur (.watch (.dynamic 0)) = n := by
  have hid : ((start.run smallRun).watch (.dynamic 0)).toOption.map Prod.snd = some 1 := by
    decide +kernel
  cases hw : (start.run smallRun).watch (.dynamic 0) with
  | error e =>
    rw [hw] at hid
    cases hid
  | ok x =>
    obtain ⟨n, id⟩ := x
    rw [hw] at hid
    obtain rfl := Option.some.inj hid
    exact ⟨n, rfl, by simp only [occur, hw]⟩

theorem delivered_smallReturn : ∃ item, ((start.run smallRun).occur (.watch (.dynamic 0))).deliveredAlong
    (.dynamic 0) 1 smallReturn = [item, item] := by
  have hdelivered : (fun items : List Item => items.length = 2 ∧ items[0]? = items[1]?)
      (((start.run smallRun).occur (.watch (.dynamic 0))).deliveredAlong (.dynamic 0) 1
        smallReturn) := by
    decide +kernel
  obtain ⟨hlength, hsame⟩ := hdelivered
  obtain ⟨item, item', hitems⟩ := List.length_eq_two.mp hlength
  rw [hitems] at hsame
  obtain rfl : item = item' := by simpa using hsame
  exact ⟨item, hitems⟩

theorem repeats_skip_another_small : ∃ n, ∃ p q u : Value × Topology,
    (start.run smallRun).watch (.dynamic 0) = .ok (n, 1) ∧
    n.deliveredAlong (.dynamic 0) 1 smallReturn = [.topology p.2, .topology q.2] ∧
    p.1.version < u.1.version ∧ u.1.version < q.1.version ∧ u.2 ≠ p.2 := by
  obtain ⟨n, hw, hn⟩ := exists_watch_smallRun
  obtain ⟨item, hitems⟩ := delivered_smallReturn
  obtain ⟨taken, htaken, hrepeats, _⟩ := repeats_skip_another smallRun smallReturn 0 1 n hw
  rw [hn, htaken] at hitems
  obtain ⟨p, _, rfl, hp, hrest⟩ := List.map_eq_cons_iff.mp hitems
  obtain ⟨q, rfl, hq⟩ := List.map_eq_singleton_iff.mp hrest
  have hsame : p.2 = q.2 := Item.topology.inj (hp.trans hq.symm)
  obtain ⟨u, _, _, hpu, huq, hne⟩ := hrepeats [] p q [] rfl hsame
  exact ⟨n, p, q, u, hw, htaken, hpu, huq, hne⟩

/-- Who does not keep up may be delivered the same topology twice in a row. -/
theorem same_delivered_twice : ∃ n, ∃ item : Item,
    (start.run smallRun).watch (.dynamic 0) = .ok (n, 1) ∧
    n.deliveredAlong (.dynamic 0) 1 smallReturn = [item, item] := by
  obtain ⟨n, hw, hn⟩ := exists_watch_smallRun
  obtain ⟨item, hitems⟩ := delivered_smallReturn
  rw [hn] at hitems
  exact ⟨n, item, hw, hitems⟩

end Node

end NamespaceTopology
