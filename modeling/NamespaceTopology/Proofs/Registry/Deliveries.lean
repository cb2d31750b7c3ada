import NamespaceTopology.Proofs.Registry.Acceptance

set_option autoImplicit false

/-!
What one who watches a registry observes. The history of a watch tells, in their order, when something
was applied and when the watch was asked for the next topology. Everything that the watch delivers was
applied, in that order and once each, and nothing is left out while asking keeps up with applying.
-/
namespace NamespaceTopology

def Delivery.value? {α : Type} : Delivery α → Option α
  | .value a => some a
  | .ended => none
  | .waiting => none

theorem Hub.value?_peek_eq_some {α : Type} {h : Hub α} {id : Nat} {a : α} :
    (h.peek id).value? = some a ↔ h.slot? id = some (.unseen a) := by
  rw [← peek_eq_value]
  cases h.peek id <;> simp [Delivery.value?]

theorem Hub.value?_peek_eq_none {α : Type} {h : Hub α} {id : Nat} :
    (h.peek id).value? = none ↔ ∀ a, h.slot? id ≠ some (.unseen a) := by
  rw [Option.eq_none_iff_forall_ne_some]
  simp only [ne_eq, value?_peek_eq_some]

def Dynamic.served (d : Dynamic) : Option (Value × Topology) := d.value.map fun v => (v, d.topology)

inductive Mark where
  | applied (p : Value × Topology)
  /-- The next topology is asked for, and the watch has not ended. -/
  | asked

namespace Mark

def applied? : Mark → Option (Value × Topology)
  | .applied p => some p
  | .asked => none

def leave {α : Type} (answer : Option (Delivery α)) (before after : Option (Value × Topology)) :
    List Mark :=
  (match answer with
    | some (.value _) => [.asked]
    | some .waiting => [.asked]
    | some .ended => []
    | none => []) ++
  if after = before then [] else after.toList.map .applied

def allApplied (marks : List Mark) : List (Value × Topology) := marks.filterMap applied?

/-- The last thing that happened is no application. -/
def Answered (marks : List Mark) : Prop := ∀ xs p, marks ≠ xs ++ [.applied p]

/-- Between every two applications the watch is asked. -/
def KeptUp (marks : List Mark) : Prop := ∀ xs p q ys, marks ≠ xs ++ .applied p :: .applied q :: ys

theorem allApplied_append (marks marks' : List Mark) :
    allApplied (marks ++ marks') = allApplied marks ++ allApplied marks' := List.filterMap_append

theorem KeptUp.left {marks marks' : List Mark} (h : KeptUp (marks ++ marks')) : KeptUp marks := by
  intro xs p q ys heq
  apply h xs p q (ys ++ marks')
  rw [heq, List.append_assoc, List.cons_append, List.cons_append]

theorem KeptUp.answered {marks : List Mark} {q : Value × Topology}
    (h : KeptUp (marks ++ [.applied q])) : Answered marks := by
  intro xs p heq
  apply h xs p q []
  rw [heq, List.append_assoc, List.singleton_append]

theorem not_answered (marks : List Mark) (q : Value × Topology) :
    ¬ Answered (marks ++ [.applied q]) := fun h => h marks q rfl

theorem leave_quiet {α : Type} (served : Option (Value × Topology)) :
    leave (none : Option (Delivery α)) served served = [] := by
  simp [leave]

theorem leave_value {α : Type} (a : α) (served : Option (Value × Topology)) :
    leave (some (.value a)) served served = [.asked] := by
  simp [leave]

theorem leave_waiting {α : Type} (served : Option (Value × Topology)) :
    leave (some (.waiting : Delivery α)) served served = [.asked] := by
  simp [leave]

theorem leave_ended {α : Type} (served : Option (Value × Topology)) :
    leave (some (.ended : Delivery α)) served served = [] := by
  simp [leave]

theorem leave_applied {α : Type} {served : Option (Value × Topology)} {p : Value × Topology}
    (hne : some p ≠ served) : leave (none : Option (Delivery α)) served (some p) = [.applied p] := by
  simp [leave, hne]

end Mark

namespace Dynamic

open Mark (allApplied Answered KeptUp)

/-- What the one who has subscription `id` has been delivered, `taken`, out of all that was applied. The
last of that may still wait in the slot, and while asking keeps up with applying nothing else is
missing. -/
structure Observed (id : Nat) (marks : List Mark) (taken : List (Value × Topology)) (d : Dynamic) :
    Prop where
  below : id < d.hub.nextId
  last : (allApplied marks).getLast? = d.served
  ascending : (allApplied marks).Pairwise fun p q => p.1.version < q.1.version
  sublist : taken.Sublist (allApplied marks)
  owed : ∀ t, d.hub.slot? id = some (.unseen t) → taken.Sublist (allApplied marks).dropLast
  settled : KeptUp marks → Answered marks → taken = allApplied marks
  seen : KeptUp marks → ∀ slot, d.hub.slot? id = some slot → slot.isUnseen = false →
    taken = allApplied marks
  unseen : KeptUp marks → ∀ t, d.hub.slot? id = some (.unseen t) →
    taken = (allApplied marks).dropLast

/-- Something happens that is none of the watcher's business, or its subscription ends. -/
theorem Observed.quiet {id : Nat} {marks : List Mark} {taken : List (Value × Topology)}
    {d d' : Dynamic} (h : Observed id marks taken d) (hnext : d.hub.nextId ≤ d'.hub.nextId)
    (hserved : d'.served = d.served)
    (hslot : ∀ slot, d'.hub.slot? id = some slot → d.hub.slot? id = some slot) :
    Observed id marks taken d' where
  below := Nat.lt_of_lt_of_le h.below hnext
  last := h.last.trans hserved.symm
  ascending := h.ascending
  sublist := h.sublist
  owed t ht := h.owed t (hslot _ ht)
  settled := h.settled
  seen hkept slot hs := h.seen hkept slot (hslot _ hs)
  unseen hkept t ht := h.unseen hkept t (hslot _ ht)

theorem Alike.served {d d' : Dynamic} (h : Alike d d') : d'.served = d.served := by
  rw [Dynamic.served, Dynamic.served, h.value, h.topology]

/-- A slot that has not been seen holds what is served. -/
theorem Coherent.served_of_unseen {d : Dynamic} (hd : d.Coherent) {id : Nat} {t : Topology}
    (hs : d.hub.slot? id = some (.unseen t)) : ∃ v, d.served = some (v, t) := by
  have hheld := hd.synced.held_slot hs
  rw [hd.latest] at hheld
  obtain ⟨v, hv, rfl⟩ := Option.map_eq_some_iff.mp hheld.symm
  exact ⟨v, by rw [served, hv]; rfl⟩

/-- What is delivered is served at that moment. -/
theorem Coherent.topology_of_next {d : Dynamic} (hd : d.Coherent) {id : Nat} {t : Topology}
    (h : (d.hub.next id).2 = .value t) : t = d.topology := by
  rw [Hub.next_snd, Hub.peek_eq_value] at h
  obtain ⟨v, hv⟩ := hd.served_of_unseen h
  obtain ⟨_, _, hpair⟩ := Option.map_eq_some_iff.mp hv
  exact (Prod.mk.inj hpair).2.symm

/-- A watch that starts is owed what is served, if anything is. -/
theorem observed_watch {d d' : Dynamic} {id : Nat} (hd : d.Coherent)
    (hw : d.watch = .ok (d', id)) : Observed id (d.served.toList.map .applied) [] d' := by
  obtain ⟨_, hub, hs, rfl⟩ := watch_eq_ok hw
  have hslot := Hub.slot?_subscribe_self hd.synced hs
  obtain ⟨_, hid, hhub⟩ := Hub.subscribe_eq_ok hs
  have hbelow : id < hub.nextId := by
    rw [hhub, hid]
    exact Nat.lt_succ_self _
  have hserved : Dynamic.served { d with hub } = d.served := rfl
  cases hv : d.served with
  | none =>
    refine ⟨hbelow, hserved ▸ hv.symm, List.Pairwise.nil, List.Sublist.refl _, ?_, ?_, ?_, ?_⟩
    · intro _ _
      exact List.nil_sublist _
    · intro _ _
      rfl
    · intro _ _ _ _
      rfl
    · intro _ _ _
      rfl
  | some p =>
    have hlatest : d.hub.latest = some d.topology := by
      obtain ⟨v, hvalue, _⟩ := Option.map_eq_some_iff.mp hv
      rw [hd.latest, hvalue]
      rfl
    refine ⟨hbelow, hserved ▸ hv.symm, List.pairwise_singleton _ _, List.nil_sublist _, ?_, ?_, ?_, ?_⟩
    · intro _ _
      exact List.nil_sublist _
    · intro _ hanswered
      exact absurd hanswered (Mark.not_answered [] p)
    · intro _ slot hslot' hseen
      obtain rfl := Option.some.inj (hslot.symm.trans hslot')
      rw [hlatest] at hseen
      cases hseen
    · intro _ _ _
      rfl

/-! ### Asking -/

/-- What has not been seen was applied last. -/
theorem Observed.exists_last {id : Nat} {marks : List Mark} {taken : List (Value × Topology)}
    {d : Dynamic} (h : Observed id marks taken d) (hd : d.Coherent) {t : Topology}
    (ht : d.hub.slot? id = some (.unseen t)) : ∃ before v, allApplied marks = before ++ [(v, t)] := by
  obtain ⟨v, hv⟩ := hd.served_of_unseen ht
  have hlast := h.last
  rw [hv] at hlast
  obtain ⟨before, hbefore⟩ := List.getLast?_eq_some_iff.mp hlast
  exact ⟨before, v, hbefore⟩

/-- While asking keeps up with applying, all but what waits has been delivered. -/
theorem Observed.pending {id : Nat} {marks : List Mark} {taken : List (Value × Topology)}
    {d : Dynamic} (h : Observed id marks taken d) (hd : d.Coherent) (hkept : KeptUp marks)
    {t : Topology} (ht : d.hub.peek id = .value t) : ∃ v, allApplied marks = taken ++ [(v, t)] := by
  have hslot := Hub.peek_eq_value.mp ht
  obtain ⟨before, v, hbefore⟩ := h.exists_last hd hslot
  have htaken := h.unseen hkept t hslot
  rw [hbefore, List.dropLast_concat] at htaken
  exact ⟨v, by rw [htaken, hbefore]⟩

/-- Once the watch has been asked, nothing is left in its slot that has not been seen. -/
theorem Observed.asked {id : Nat} {marks : List Mark} {taken taken' : List (Value × Topology)}
    {d d' : Dynamic} (h : Observed id marks taken d) (hnext : d'.hub.nextId = d.hub.nextId)
    (hserved : d'.served = d.served) (hseen : ∀ t, d'.hub.slot? id ≠ some (.unseen t))
    (hsublist : taken'.Sublist (allApplied marks)) (hall : KeptUp marks → taken' = allApplied marks) :
    Observed id (marks ++ [.asked]) taken' d' := by
  have hmarks : allApplied (marks ++ [.asked]) = allApplied marks := by
    rw [Mark.allApplied_append]
    exact List.append_nil _
  refine ⟨?_, ?_, ?_, ?_, ?_, ?_, ?_, ?_⟩
  · rw [hnext]
    exact h.below
  · rw [hmarks, hserved]
    exact h.last
  · rw [hmarks]
    exact h.ascending
  · rw [hmarks]
    exact hsublist
  · intro t ht
    exact absurd ht (hseen t)
  · intro hkept _
    rw [hmarks]
    exact hall hkept.left
  · intro hkept _ _ _
    rw [hmarks]
    exact hall hkept.left
  · intro _ t ht
    exact absurd ht (hseen t)

theorem after_next_of_unseen {id : Nat} {d : Dynamic} {t : Topology}
    (ht : d.hub.slot? id = some (.unseen t)) :
    d.after (.next id) = { d with hub := d.hub.setSlot id (.seen t) } := by
  rw [after, Hub.next_of_unseen ht]

theorem after_next_of_not_unseen {id : Nat} {d : Dynamic}
    (hs : ∀ t, d.hub.slot? id ≠ some (.unseen t)) : d.after (.next id) = d := by
  rw [after, Hub.next_of_not_unseen hs]

/-- After the watch was asked nothing is left to be seen. -/
theorem slot?_after_next_of_unseen {id : Nat} {d : Dynamic} {t : Topology}
    (ht : d.hub.slot? id = some (.unseen t)) :
    (d.after (.next id)).hub.slot? id = some (.seen t) := by
  rw [after_next_of_unseen ht, Hub.slot?_setSlot, if_pos rfl, ht]
  rfl

/-- The watch is asked and delivers what it was owed. -/
theorem Observed.delivered {id : Nat} {marks : List Mark} {taken : List (Value × Topology)}
    {d : Dynamic} (h : Observed id marks taken d) (hd : d.Coherent) {t : Topology}
    (ht : d.hub.slot? id = some (.unseen t)) :
    ∃ v, Observed id (marks ++ [.asked]) (taken ++ [(v, t)]) (d.after (.next id)) := by
  obtain ⟨before, v, hbefore⟩ := h.exists_last hd ht
  have hslot := slot?_after_next_of_unseen ht
  have howed := h.owed t ht
  rw [hbefore, List.dropLast_concat] at howed
  refine ⟨v, h.asked ?_ ?_ ?_ ?_ ?_⟩
  · rw [after_next_of_unseen ht]
    rfl
  · rw [after_next_of_unseen ht]
    rfl
  · intro u hu
    rw [hslot] at hu
    cases hu
  · rw [hbefore]
    exact howed.append (List.Sublist.refl _)
  · intro hkept
    rw [h.unseen hkept t ht, hbefore, List.dropLast_concat]

/-- One who waits has a slot, and whatever came into it has been delivered. -/
theorem Observed.waits {id : Nat} {marks : List Mark} {taken : List (Value × Topology)}
    {d : Dynamic} (h : Observed id marks taken d) (hd : d.Coherent)
    (hp : d.hub.peek id = .waiting) : Observed id (marks ++ [.asked]) taken d := by
  have hvalue : (d.hub.peek id).value? = none := by rw [hp]; rfl
  have hunseen := Hub.value?_peek_eq_none.mp hvalue
  obtain ⟨slot, hslot⟩ := hd.synced.exists_slot_of_waiting hp
  have hseen : slot.isUnseen = false := by
    cases slot with
    | unseen t => exact absurd hslot (hunseen t)
    | empty => rfl
    | seen _ => rfl
  exact h.asked rfl rfl hunseen h.sublist fun hkept => h.seen hkept slot hslot hseen

/-- The watch is asked, and delivers what it was owed or says that it waits. -/
theorem Observed.next {id : Nat} {marks : List Mark} {taken : List (Value × Topology)} {d : Dynamic}
    (h : Observed id marks taken d) (hd : d.Coherent) :
    ∃ more, Observed id (marks ++ Mark.leave (some (d.hub.next id).2) d.served d.served)
        (taken ++ more) (d.after (.next id)) ∧
      (d.hub.next id).2.value?.toList = more.map Prod.snd := by
  rw [Hub.next_snd]
  cases hp : d.hub.peek id with
  | value t =>
    obtain ⟨v, hdelivered⟩ := h.delivered hd (Hub.peek_eq_value.mp hp)
    rw [Mark.leave_value]
    exact ⟨[(v, t)], hdelivered, rfl⟩
  | ended =>
    rw [Mark.leave_ended, after_next_of_not_unseen (Hub.value?_peek_eq_none.mp (by rw [hp]; rfl))]
    refine ⟨[], ?_, rfl⟩
    rw [List.append_nil, List.append_nil]
    exact h
  | waiting =>
    rw [Mark.leave_waiting, after_next_of_not_unseen (Hub.value?_peek_eq_none.mp (by rw [hp]; rfl))]
    refine ⟨[], ?_, rfl⟩
    rw [List.append_nil]
    exact h.waits hd hp

/-! ### Applying -/

theorem lt_of_ascending {ps : List (Value × Topology)} {last : Value × Topology}
    (h : ps.Pairwise fun p q => p.1.version < q.1.version) (hlast : ps.getLast? = some last)
    {v : Value} (hv : last.1.version < v.version) : ∀ p ∈ ps, p.1.version < v.version := by
  obtain ⟨before, rfl⟩ := List.getLast?_eq_some_iff.mp hlast
  intro p hp
  rcases List.mem_append.mp hp with hbefore | hsame
  · have hlt := (List.pairwise_append.mp h).2.2 p hbefore last List.mem_cons_self
    exact Int64.lt_trans hlt hv
  · rw [List.mem_singleton.mp hsame]
    exact hv

/-- Whatever is newer than the value in use is newer than all that was applied. -/
theorem Observed.lt_of_isNewer {id : Nat} {marks : List Mark} {taken : List (Value × Topology)}
    {d : Dynamic} (h : Observed id marks taken d) {v : Value} (hv : v.isNewer d.value = true) :
    ∀ p ∈ allApplied marks, p.1.version < v.version := by
  rw [Value.isNewer_iff] at hv
  cases hvalue : d.value with
  | none =>
    have hserved : d.served = none := by
      rw [served, hvalue]
      rfl
    rw [List.getLast?_eq_none_iff.mp (h.last.trans hserved)]
    intro p hp
    exact absurd hp List.not_mem_nil
  | some w =>
    have hserved : d.served = some (w, d.topology) := by
      rw [served, hvalue]
      rfl
    exact lt_of_ascending h.ascending (h.last.trans hserved) (hv w hvalue)

/-- Something is applied, and waits in the slot of the watch if it still has one. -/
theorem Observed.applied {id : Nat} {marks : List Mark} {taken : List (Value × Topology)}
    {d d' : Dynamic} (h : Observed id marks taken d) (hnext : d'.hub.nextId = d.hub.nextId)
    {v : Value} {t : Topology} (hserved : d'.served = some (v, t))
    (hless : ∀ p ∈ allApplied marks, p.1.version < v.version)
    (hslot : ∀ slot, d'.hub.slot? id = some slot → slot = .unseen t) :
    Observed id (marks ++ [.applied (v, t)]) taken d' := by
  have hmarks : allApplied (marks ++ [.applied (v, t)]) = allApplied marks ++ [(v, t)] :=
    Mark.allApplied_append _ _
  refine ⟨?_, ?_, ?_, ?_, ?_, ?_, ?_, ?_⟩
  · rw [hnext]
    exact h.below
  · rw [hmarks, List.getLast?_concat, hserved]
  · rw [hmarks]
    refine List.pairwise_append.mpr ⟨h.ascending, List.pairwise_singleton _ _, ?_⟩
    intro p hp q hq
    rw [List.mem_singleton.mp hq]
    exact hless p hp
  · rw [hmarks]
    exact h.sublist.trans (List.sublist_append_left _ _)
  · intro _ _
    rw [hmarks, List.dropLast_concat]
    exact h.sublist
  · intro _ hanswered
    exact absurd hanswered (Mark.not_answered marks _)
  · intro _ slot hs hseen
    rw [hslot slot hs] at hseen
    cases hseen
  · intro hkept _ _
    rw [hmarks, List.dropLast_concat]
    exact h.settled hkept.left hkept.answered

theorem Observed.receive {id : Nat} {marks : List Mark} {taken : List (Value × Topology)}
    {d : Dynamic} (h : Observed id marks taken d) (hd : d.Coherent) (content : Option Value) :
    Observed id (marks ++ Mark.leave (none : Option (Delivery Topology)) d.served
      (d.receive content).1.served) taken (d.receive content).1 := by
  have hquiet (heq : (d.receive content).1.served = d.served)
      (hhub : (d.receive content).1.hub = d.hub) : Observed id (marks ++ Mark.leave
        (none : Option (Delivery Topology)) d.served (d.receive content).1.served) taken
        (d.receive content).1 := by
    rw [heq, Mark.leave_quiet, List.append_nil]
    refine h.quiet (Nat.le_of_eq (congrArg Hub.nextId hhub.symm)) heq fun slot hslot => ?_
    rw [hhub] at hslot
    exact hslot
  rcases receive_cases hd content with ⟨v, t, hub, hok, hu, heq⟩ | ⟨_, _, heq⟩ | ⟨_, heq⟩
  · obtain ⟨_, hnewer, _, _, _⟩ := examine_eq_ok.mp hok
    have hless := h.lt_of_isNewer hnewer
    have hserved : (d.receive content).1.served = some (v, t) := by
      rw [heq]
      rfl
    have hne : some (v, t) ≠ d.served := by
      intro hsame
      have hmem := List.mem_of_getLast? (h.last.trans hsame.symm)
      have hlt : v.version < v.version := hless (v, t) hmem
      exact absurd hlt Int64.lt_irrefl
    have hslot := Hub.slot?_update hd.synced hu id
    obtain ⟨_, hhub⟩ := Hub.update_eq_ok hu
    rw [hserved, Mark.leave_applied hne, heq]
    refine h.applied ?_ rfl hless ?_
    · change hub.nextId = d.hub.nextId
      rw [hhub]
    · intro slot hs
      rw [hslot] at hs
      obtain ⟨_, _, rfl⟩ := Option.map_eq_some_iff.mp hs
      rfl
  · exact hquiet (by rw [heq]) (by rw [heq])
  · exact hquiet (by rw [heq]; rfl) (by rw [heq])

/-! ### Every move -/

/-- A move that takes nothing in and does not answer the watch leaves its slot as it is or ends it. -/
theorem slot?_after {id : Nat} {d : Dynamic} (hd : d.Coherent) (hid : id < d.hub.nextId) {m : Move}
    (hm : m.content? = none) (hanswer : d.answer id m = none) :
    d.hub.nextId ≤ (d.after m).hub.nextId ∧
      ∀ slot, (d.after m).hub.slot? id = some slot → d.hub.slot? id = some slot := by
  have hkept (hhub : (d.after m).hub = d.hub) : d.hub.nextId ≤ (d.after m).hub.nextId ∧
      ∀ slot, (d.after m).hub.slot? id = some slot → d.hub.slot? id = some slot := by
    rw [hhub]
    exact ⟨Nat.le_refl _, fun _ hs => hs⟩
  cases m with
  | watch =>
    rcases after_watch_cases d with heq | ⟨hub, new, hs, heq⟩
    · exact hkept (congrArg Dynamic.hub heq)
    · obtain ⟨_, hnew, hhub⟩ := Hub.subscribe_eq_ok hs
      have hne : id ≠ new := hnew ▸ Nat.ne_of_lt hid
      have hslot : (d.after .watch).hub.slot? id = d.hub.slot? id := by
        rw [heq]
        exact Hub.slot?_subscribe_other hs hne
      refine ⟨?_, fun _ hold => hslot ▸ hold⟩
      rw [heq, hhub]
      exact Nat.le_succ _
  | close e =>
    rcases after_close_cases hd e with ⟨_, heq⟩ | ⟨_, hub, instruments, hc, _, heq⟩
    · exact hkept (congrArg Dynamic.hub heq)
    · obtain ⟨_, rfl⟩ := Hub.close_eq_ok hc
      rw [heq]
      exact ⟨Nat.le_refl _, fun _ hs => hs⟩
  | withdraw _ => exact hkept rfl
  | next i =>
    have hi : id ≠ i := by
      rintro rfl
      rw [answer, if_pos rfl] at hanswer
      cases hanswer
    refine ⟨?_, ?_⟩
    · change d.hub.nextId ≤ (d.hub.next i).1.nextId
      rw [Hub.next]
      split <;> exact Nat.le_refl _
    · change ∀ slot, (d.hub.next i).1.slot? id = some slot → _
      rw [Hub.slot?_next_other hi]
      exact fun _ hs => hs
  | drop i =>
    refine ⟨Nat.le_refl _, ?_⟩
    change ∀ slot, (d.hub.drop i).slot? id = some slot → _
    by_cases hi : id = i
    · subst hi
      rw [Hub.slot?_drop_self]
      intro _ hs
      cases hs
    · rw [Hub.slot?_drop_other _ hi]
      exact fun _ hs => hs
  | sample =>
    refine hkept ?_
    obtain ⟨instruments, _, heq⟩ := after_sample d
    rw [heq]
  | receive content => cases hm

theorem Observed.after {id : Nat} {marks : List Mark} {taken : List (Value × Topology)} {d : Dynamic}
    (h : Observed id marks taken d) (hd : d.Coherent) (m : Move) :
    ∃ more, Observed id (marks ++ Mark.leave (d.answer id m) d.served (d.after m).served)
        (taken ++ more) (d.after m) ∧
      ((d.answer id m).bind Delivery.value?).toList = more.map Prod.snd := by
  -- Of all moves only this subscription's own asking and an update that is applied leave a mark.
  cases hm : m.content? with
  | some content =>
    obtain rfl := Move.content?_eq_some hm
    refine ⟨[], ?_, rfl⟩
    rw [List.append_nil]
    exact h.receive hd content
  | none =>
    have hserved := (alike_after hd hm).served
    cases hanswer : d.answer id m with
    | some x =>
      obtain ⟨rfl, rfl⟩ := answer_eq_some hanswer
      rw [hserved]
      exact h.next hd
    | none =>
      obtain ⟨hnext, hslot⟩ := slot?_after hd h.below hm hanswer
      refine ⟨[], ?_, rfl⟩
      rw [hserved, Mark.leave_quiet, List.append_nil, List.append_nil]
      exact h.quiet hnext hserved hslot

/-- What only ends something is not observed. -/
theorem Observed.ends {id : Nat} {marks : List Mark} {taken : List (Value × Topology)} {d : Dynamic}
    (h : Observed id marks taken d) (hd : d.Coherent) {ms : List Move}
    (hms : ∀ m ∈ ms, m.isEnd = true) : Observed id marks taken (d.run ms) := by
  induction ms generalizing d with
  | nil => exact h
  | cons m ms ih =>
    have hm := hms m List.mem_cons_self
    refine ih ?_ (hd.after m) fun x hx => hms x (List.mem_cons_of_mem m hx)
    obtain ⟨more, hmore, hvalues⟩ := h.after hd m
    obtain ⟨hcontent, hanswer⟩ : m.content? = none ∧ d.answer id m = none := by
      cases m with
      | close _ | withdraw _ | drop _ => exact ⟨rfl, rfl⟩
      | watch | next _ | sample | receive _ => cases hm
    have hserved := (alike_after hd hcontent).served
    rw [hanswer] at hmore hvalues
    rw [hserved, Mark.leave_quiet, List.append_nil] at hmore
    obtain rfl := List.map_eq_nil_iff.mp hvalues.symm
    rw [List.append_nil] at hmore
    exact hmore

/-! ### What was delivered last -/

/-- What has been seen in the slot of a watch was delivered last. -/
structure SeenLast (id : Nat) (last : Option Topology) (d : Dynamic) : Prop where
  below : id < d.hub.nextId
  seen : ∀ t, d.hub.slot? id = some (.seen t) → last = some t

theorem seenLast_watch {d d' : Dynamic} {id : Nat} (hd : d.Coherent)
    (hw : d.watch = .ok (d', id)) : SeenLast id none d' := by
  have hbelow := (observed_watch hd hw).below
  obtain ⟨_, hub, hs, rfl⟩ := watch_eq_ok hw
  refine ⟨hbelow, fun t ht => ?_⟩
  have hslot := Hub.slot?_subscribe_self hd.synced hs
  rw [hslot] at ht
  cases hl : d.hub.latest with
  | none =>
    rw [hl] at ht
    cases ht
  | some u =>
    rw [hl] at ht
    cases ht

/-- What is published has not been seen. -/
theorem SeenLast.receive {id : Nat} {last : Option Topology} {d : Dynamic} (h : SeenLast id last d)
    (hd : d.Coherent) (content : Option Value) : SeenLast id last (d.receive content).1 := by
  rcases receive_cases hd content with ⟨v, t, hub, _, hu, hr⟩ | ⟨_, _, hr⟩ | ⟨_, hr⟩
  · have hslot := Hub.slot?_update hd.synced hu id
    obtain ⟨_, hhub⟩ := Hub.update_eq_ok hu
    rw [hr]
    refine ⟨?_, fun u hseen => ?_⟩
    · change id < hub.nextId
      rw [hhub]
      exact h.below
    · change hub.slot? id = _ at hseen
      rw [hslot] at hseen
      obtain ⟨_, _, hunseen⟩ := Option.map_eq_some_iff.mp hseen
      cases hunseen
  · rw [hr]
    exact h
  · rw [hr]
    exact ⟨h.below, h.seen⟩

theorem SeenLast.next {id : Nat} {last : Option Topology} {d : Dynamic} (h : SeenLast id last d) :
    SeenLast id ((d.hub.next id).2.value?.or last) (d.after (.next id)) := by
  rw [Hub.next_snd]
  cases hvalue : (d.hub.peek id).value? with
  | some t =>
    have ht := Hub.value?_peek_eq_some.mp hvalue
    refine ⟨?_, fun u hseen => ?_⟩
    · rw [after_next_of_unseen ht]
      exact h.below
    · rw [slot?_after_next_of_unseen ht] at hseen
      cases hseen
      rfl
  | none =>
    rw [after_next_of_not_unseen (Hub.value?_peek_eq_none.mp hvalue)]
    exact h

theorem SeenLast.after {id : Nat} {last : Option Topology} {d : Dynamic} (h : SeenLast id last d)
    (hd : d.Coherent) (m : Move) :
    SeenLast id (((d.answer id m).bind Delivery.value?).or last) (d.after m) := by
  cases hm : m.content? with
  | some content =>
    obtain rfl := Move.content?_eq_some hm
    exact h.receive hd content
  | none =>
    cases hanswer : d.answer id m with
    | none =>
      obtain ⟨hnext, hslot⟩ := slot?_after hd h.below hm hanswer
      exact ⟨Nat.lt_of_lt_of_le h.below hnext, fun t ht => h.seen t (hslot _ ht)⟩
    | some x =>
      obtain ⟨rfl, rfl⟩ := answer_eq_some hanswer
      exact h.next

theorem SeenLast.ends {id : Nat} {last : Option Topology} {d : Dynamic} (h : SeenLast id last d)
    (hd : d.Coherent) {ms : List Move} (hms : ∀ m ∈ ms, m.isEnd = true) :
    SeenLast id last (d.run ms) := by
  induction ms generalizing d with
  | nil => exact h
  | cons m ms ih =>
    refine ih ?_ (hd.after m) fun x hx => hms x (List.mem_cons_of_mem m hx)
    have hm := hms m List.mem_cons_self
    have hafter := h.after hd m
    cases m with
    | close _ | withdraw _ | drop _ => exact hafter
    | watch | next _ | sample | receive _ => cases hm

/-- One who waits on a registry that stores a value was delivered last what is served. -/
theorem SeenLast.of_waiting {id : Nat} {last : Option Topology} {d : Dynamic}
    (h : SeenLast id last d) (hd : d.Coherent) {v : Value} (hv : d.value = some v)
    (hp : d.hub.peek id = .waiting) : last = some d.topology := by
  obtain ⟨slot, hslot⟩ := hd.synced.exists_slot_of_waiting hp
  have hheld := hd.synced.held_slot hslot
  rw [hd.latest, hv] at hheld
  cases slot with
  | empty => cases hheld
  | unseen t =>
    rw [Hub.peek_eq_value.mpr hslot] at hp
    cases hp
  | seen t =>
    obtain rfl := Option.some.inj hheld
    exact h.seen _ hslot

end Dynamic

end NamespaceTopology
