import NamespaceTopology.Proofs.Broadcast.Runs

set_option autoImplicit false

/-!
What a subscription delivers along a run of its hub. What is due to it is what was published last since
it started or last delivered something, and that is what it delivers when it is asked next, whether the
hub has been closed meanwhile or not.
-/
namespace NamespaceTopology

def Slot.unseen? {α : Type} : Slot α → Option α
  | .unseen a => some a
  | _ => none

namespace Hub

variable {α : Type}

def published? (h : Hub α) : Event α → Option α
  | .update a => match h.update a with
    | .ok _ => some a
    | .error _ => none
  | _ => none

def publishedAlong : Hub α → List (Event α) → List α
  | _, [] => []
  | h, e :: es => (h.published? e).toList ++ publishedAlong (h.occur e) es

def delivered? (id : Nat) (h : Hub α) : Event α → Option α
  | .next i => if i = id then match (h.next i).2 with
      | .value a => some a
      | _ => none
    else none
  | _ => none

def deliveredAlong (id : Nat) : Hub α → List (Event α) → List α
  | _, [] => []
  | h, e :: es => (h.delivered? id e).toList ++ deliveredAlong id (h.occur e) es

/-- What one is told who asks a subscription to which something is due, or nothing. -/
def told (due : Option α) (h : Hub α) : Delivery α :=
  match due with
  | some a => .value a
  | none => if h.closed then .ended else .waiting

/-! ### What is due -/

/-- What has not been seen in the slot of a subscription, if it still has one, is what is due to it. -/
structure Owes (id : Nat) (due : Option α) (h : Hub α) : Prop where
  below : id < h.nextId
  slot : ∀ slot, h.slot? id = some slot → slot.unseen? = due

theorem unseen?_eq_some {slot : Slot α} {a : α} : slot.unseen? = some a ↔ slot = .unseen a := by
  cases slot <;> simp [Slot.unseen?]

theorem unseen?_ofLatest (latest : Option α) : (Slot.ofLatest latest).unseen? = latest := by
  cases latest <;> rfl

/-- What was the latest when a subscription started is due to it. -/
theorem owes_subscribe {h h' : Hub α} {id : Nat} (hh : h.Synced) (hs : h.subscribe = .ok (h', id)) :
    Owes id h.latest h' := by
  have hslot := slot?_subscribe_self hh hs
  obtain ⟨_, rfl, rfl⟩ := subscribe_eq_ok hs
  refine ⟨Nat.lt_succ_self _, fun slot hs => ?_⟩
  obtain rfl := Option.some.inj (hslot.symm.trans hs)
  exact unseen?_ofLatest h.latest

theorem delivered?_eq_some {id : Nat} {h : Hub α} {e : Event α} {a : α}
    (hd : h.delivered? id e = some a) :
    e = .next id ∧ h.slot? id = some (.unseen a) ∧ h.occur e = h.setSlot id (.seen a) := by
  cases e with
  | next i =>
    simp only [delivered?] at hd
    split at hd
    next hi =>
      subst hi
      split at hd
      next b hb =>
        obtain rfl := Option.some.inj hd
        rw [next_snd] at hb
        have hslot := peek_eq_value.mp hb
        exact ⟨rfl, hslot, congrArg Prod.fst (next_of_unseen hslot)⟩
      next => cases hd
    next => cases hd
  | update _ | subscribe | drop _ | close => cases hd

theorem not_unseen_of_delivered? {id : Nat} {h : Hub α} (hd : h.delivered? id (.next id) = none)
    (a : α) : h.slot? id ≠ some (.unseen a) := by
  intro hslot
  simp [delivered?, next_of_unseen hslot] at hd

/-- Nothing is due to one who has just asked. -/
theorem Owes.next {id : Nat} {due : Option α} {h : Hub α} (ho : Owes id due h) :
    Owes id none (h.next id).1 := by
  by_cases hunseen : ∃ a, h.slot? id = some (.unseen a)
  · obtain ⟨a, ha⟩ := hunseen
    rw [next_of_unseen ha]
    refine ⟨ho.below, fun slot hs => ?_⟩
    rw [slot?_setSlot, if_pos rfl, ha] at hs
    obtain rfl := Option.some.inj hs
    rfl
  · rw [next_of_not_unseen fun a ha => hunseen ⟨a, ha⟩]
    refine ⟨ho.below, fun slot hs => Option.eq_none_iff_forall_ne_some.mpr fun a ha => ?_⟩
    rw [unseen?_eq_some.mp ha] at hs
    exact hunseen ⟨a, hs⟩

/-- An event that delivers something takes what is due, and nothing is due then. -/
theorem Owes.delivered {id : Nat} {due : Option α} {h : Hub α} (ho : Owes id due h) {e : Event α} {a : α}
    (hd : h.delivered? id e = some a) :
    due = some a ∧ h.published? e = none ∧ Owes id none (h.occur e) := by
  obtain ⟨rfl, hslot, _⟩ := delivered?_eq_some hd
  exact ⟨(ho.slot _ hslot).symm, rfl, ho.next⟩

/-- Otherwise what the event publishes is due, and else what was due before. -/
theorem Owes.occur {id : Nat} {due : Option α} {h : Hub α} (ho : Owes id due h) (hh : h.Synced)
    {e : Event α} (hd : h.delivered? id e = none) :
    Owes id ((h.published? e).or due) (h.occur e) := by
  refine ⟨Nat.lt_of_lt_of_le ho.below (nextId_occur h e), fun slot hs => ?_⟩
  cases e with
  | update a =>
    simp only [published?, Hub.occur] at hs ⊢
    cases hu : h.update a with
    | error e =>
      rw [hu] at hs
      exact ho.slot slot hs
    | ok h' =>
      simp only [hu, slot?_update hh hu] at hs
      obtain ⟨_, _, rfl⟩ := Option.map_eq_some_iff.mp hs
      rfl
  | subscribe =>
    simp only [published?, Hub.occur] at hs ⊢
    cases hsub : h.subscribe with
    | error e =>
      rw [hsub] at hs
      exact ho.slot slot hs
    | ok p =>
      obtain ⟨h', new⟩ := p
      have hne : id ≠ new := by
        obtain ⟨_, rfl, _⟩ := subscribe_eq_ok hsub
        exact Nat.ne_of_lt ho.below
      rw [hsub] at hs
      exact ho.slot slot ((slot?_subscribe_other hsub hne).symm.trans hs)
  | next i =>
    simp only [published?, Hub.occur] at hs ⊢
    by_cases hi : id = i
    · subst hi
      rw [next_of_not_unseen (not_unseen_of_delivered? hd)] at hs
      exact ho.slot slot hs
    · exact ho.slot slot ((slot?_next_other hi).symm.trans hs)
  | drop i =>
    simp only [published?, Hub.occur] at hs ⊢
    by_cases hi : id = i
    · subst hi
      rw [slot?_drop_self] at hs
      cases hs
    · exact ho.slot slot ((slot?_drop_other h hi).symm.trans hs)
  | close =>
    simp only [published?, Hub.occur] at hs ⊢
    cases hc : h.close with
    | error e =>
      rw [hc] at hs
      exact ho.slot slot hs
    | ok h' =>
      obtain ⟨_, rfl⟩ := close_eq_ok hc
      rw [hc] at hs
      exact ho.slot slot hs

/-- As long as a subscription delivers nothing, what was published last is due to it. -/
theorem Owes.run {id : Nat} {due : Option α} {h : Hub α} (ho : Owes id due h) (hh : h.Synced)
    {es : List (Event α)} (hd : h.deliveredAlong id es = []) :
    Owes id ((h.publishedAlong es).getLast?.or due) (h.run es) := by
  induction es generalizing h due with
  | nil => exact ho
  | cons e es ih =>
    obtain ⟨hnone, hrest⟩ := List.append_eq_nil_iff.mp hd
    have hlater := ih (ho.occur hh (Option.toList_eq_nil_iff.mp hnone)) (hh.occur e) hrest
    have hlast : (h.publishedAlong (e :: es)).getLast?.or due =
        ((h.occur e).publishedAlong es).getLast?.or ((h.published? e).or due) := by
      rw [publishedAlong, List.getLast?_append, Option.or_assoc]
      cases h.published? e <;> rfl
    rw [hlast]
    exact hlater

/-- Whatever a subscription delivers was due to it, or was published since, in that order and each time
once. -/
theorem Owes.delivered_sublist {id : Nat} {due : Option α} {h : Hub α} (ho : Owes id due h)
    (hh : h.Synced) (es : List (Event α)) :
    (h.deliveredAlong id es).Sublist (due.toList ++ h.publishedAlong es) := by
  induction es generalizing h due with
  | nil => exact List.nil_sublist _
  | cons e es ih =>
    rw [deliveredAlong, publishedAlong]
    cases hd : h.delivered? id e with
    | some a =>
      obtain ⟨rfl, hnone, hnext⟩ := ho.delivered hd
      rw [hnone]
      exact (ih hnext (hh.occur e)).cons_cons a
    | none =>
      have hrest := ih (ho.occur hh hd) (hh.occur e)
      have hdue : ((h.published? e).or due).toList.Sublist
          (due.toList ++ (h.published? e).toList) := by
        cases h.published? e with
        | none => exact List.sublist_append_left _ _
        | some b => exact List.sublist_append_right _ _
      rw [← List.append_assoc]
      exact hrest.trans (hdue.append_right _)

/-! ### What one is told -/

theorem mem_hadAlong {id : Nat} {ids : List Nat} (hid : id ∈ ids) (h : Hub α) {es : List (Event α)}
    (hdrop : .drop id ∉ es) : id ∈ hadAlong ids h es := by
  induction es generalizing h ids with
  | nil => exact hid
  | cons e es ih =>
    have hkept : id ∈ had ids h e := by
      cases e with
      | drop i =>
        have hne : id ≠ i := fun hi => hdrop (hi ▸ List.mem_cons_self)
        exact List.mem_filter.mpr ⟨hid, by simpa using hne⟩
      | update _ | subscribe | next _ | close => exact List.mem_append_left _ hid
    exact ih hkept _ fun hmem => hdrop (List.mem_cons_of_mem e hmem)

/-- What one meets who still has a slot, if the hub publishes to him just as long as it is open. -/
theorem Owes.peek_eq_told {id : Nat} {due : Option α} {h : Hub α} (ho : Owes id due h) {slot : Slot α}
    (hslot : h.slot? id = some slot) (hregistered : id ∈ h.registered ↔ h.closed = false) :
    h.peek id = told due h := by
  have hdue := ho.slot slot hslot
  cases due with
  | some a =>
    obtain rfl := unseen?_eq_some.mp hdue
    exact peek_eq_value.mpr hslot
  | none =>
    have hseen (a : α) : (h.slot? id) ≠ some (.unseen a) := by
      intro hunseen
      obtain rfl := Option.some.inj (hslot.symm.trans hunseen)
      cases hdue
    have hpeek : h.peek id = if id ∈ h.registered then .waiting else .ended := by
      unfold peek
      split
      next a ha => exact absurd ha (hseen a)
      next => rfl
    rw [hpeek, told]
    cases hclosed : h.closed with
    | true => exact if_neg fun hid => absurd (hclosed.symm.trans (hregistered.mp hid)) (by decide)
    | false => exact if_pos (hregistered.mpr hclosed)

/-- One who has a subscription is told what is due to it. -/
theorem Owes.next_snd {id : Nat} {due : Option α} {h : Hub α} (ho : Owes id due h) {ids : List Nat}
    (hk : h.Knows ids) (hid : id ∈ ids) : (h.next id).2 = told due h := by
  obtain ⟨slot, hslot⟩ := hk.exists_slot hid
  rw [Hub.next_snd]
  refine ho.peek_eq_told hslot ?_
  rw [hk.registered]
  cases h.closed <;> simp [hid]

theorem mem_of_slot {h : Hub α} {ids : List Nat} (hk : h.Knows ids) {id : Nat} {slot : Slot α}
    (hs : h.slot? id = some slot) : id ∈ ids := by
  obtain ⟨s, hmem, rfl, _⟩ := mem_of_slot? hs
  exact hk.subscriptions ▸ List.mem_map_of_mem hmem

/-- Whoever hears the end from a closed hub hears nothing else from then on. -/
theorem peek_occur_of_ended {h : Hub α} (hc : h.closed = true) {id : Nat} (hp : h.peek id = .ended)
    (e : Event α) : (h.occur e).peek id = .ended := by
  have hrefuses := refuses_of_closed hc
  have hseen (a : α) : h.slot? id ≠ some (.unseen a) := by
    intro hslot
    rw [peek_eq_value.mpr hslot] at hp
    cases hp
  cases e with
  | update a => rw [(hrefuses.update a).2, hp]
  | subscribe => rw [hrefuses.subscribe.2, hp]
  | close => rw [hrefuses.close.2, hp]
  | next i =>
    by_cases hi : id = i
    · subst hi
      rw [Hub.occur, next_of_not_unseen hseen]
      exact hp
    · exact (agree_next hi).peek.trans hp
  | drop i =>
    by_cases hi : id = i
    · subst hi
      have hgone := slot?_drop_self h id
      have hunregistered : id ∉ (h.drop id).registered := by
        simp [Hub.drop]
      change (h.drop id).peek id = .ended
      unfold peek
      split
      next a ha => cases hgone.symm.trans ha
      next => exact if_neg hunregistered
    · exact (agree_drop hi).peek.trans hp

theorem peek_run_of_ended {h : Hub α} (hc : h.closed = true) {id : Nat} (hp : h.peek id = .ended)
    (es : List (Event α)) : (h.run es).peek id = .ended := by
  induction es generalizing h with
  | nil => exact hp
  | cons e es ih => exact ih (closed_occur hc e).1 (peek_occur_of_ended hc hp e)

/-- A subscription that somebody has either delivers at once or has nothing unseen. -/
theorem hasPending_of_open {h : Hub α} (hopen : h.closed = false) {ids : List Nat} (hk : h.Knows ids)
    {id : Nat} (hid : id ∈ ids) : h.hasPending id = true ↔ (h.next id).2 ≠ .waiting := by
  obtain ⟨slot, hslot⟩ := hk.exists_slot hid
  have hregistered : id ∈ h.registered := by
    rw [hk.registered, hopen]
    exact hid
  have hpending : h.hasPending id = slot.isUnseen := by
    obtain ⟨s, hs, rfl⟩ := Option.map_eq_some_iff.mp hslot
    simp [Hub.hasPending, hregistered, hs]
  rw [hpending, Hub.next_snd]
  cases slot with
  | unseen a =>
    rw [peek_eq_value.mpr hslot]
    simp [Slot.isUnseen]
  | empty | seen _ =>
    have hpeek : h.peek id = .waiting := by
      unfold peek
      split
      next b hb => cases hslot.symm.trans hb
      next => exact if_pos hregistered
    simp [hpeek, Slot.isUnseen]

/-! ### What is the latest -/

theorem latest_occur (h : Hub α) (e : Event α) : (h.occur e).latest = (h.published? e).or h.latest := by
  cases e with
  | update a =>
    simp only [occur, published?]
    cases hu : h.update a with
    | error e => rfl
    | ok h' =>
      obtain ⟨_, rfl⟩ := update_eq_ok hu
      rfl
  | subscribe =>
    simp only [occur]
    split
    next h' id hs =>
      obtain ⟨_, _, rfl⟩ := subscribe_eq_ok hs
      rfl
    next => rfl
  | next id => exact latest_next h id
  | drop id => rfl
  | close =>
    simp only [occur]
    split
    next h' hc =>
      obtain ⟨_, rfl⟩ := close_eq_ok hc
      rfl
    next => rfl

theorem latest_run (h : Hub α) (es : List (Event α)) :
    (h.run es).latest = (h.publishedAlong es).getLast?.or h.latest := by
  induction es generalizing h with
  | nil => rfl
  | cons e es ih =>
    change ((h.occur e).run es).latest = _
    rw [ih, latest_occur, publishedAlong, List.getLast?_append, Option.or_assoc]
    cases h.published? e <;> rfl

/-- A subscription that is asked for the next value delivers what was published last since it started,
or was the latest then, or since it last delivered something; with nothing of that kind it waits while
the hub is open and has ended once it is closed. So it delivers what is published in that order, each time
once, and skips only what was not the latest any more. Something is pending, as long as the hub is open,
just if it would be delivered. -/
theorem next_delivers_last_published (latest : Option α) (es : List (Event α)) (id : Nat) :
    let h := (start latest).run es
    h.latest = ((start latest).publishedAlong es).getLast?.or latest ∧
    (∀ h', h.subscribe = .ok (h', id) → ∀ es', .drop id ∉ es' → h'.deliveredAlong id es' = [] →
      ((h'.run es').next id).2 =
        told ((h'.publishedAlong es').getLast?.or h.latest) (h'.run es')) ∧
    (∀ h' a, h.next id = (h', .value a) → ∀ es', .drop id ∉ es' → h'.deliveredAlong id es' = [] →
      ((h'.run es').next id).2 = told (h'.publishedAlong es').getLast? (h'.run es')) ∧
    (∀ h', h.subscribe = .ok (h', id) → ∀ es',
      (h'.deliveredAlong id es').Sublist (h.latest.toList ++ h'.publishedAlong es')) ∧
    (h.closed = true → (h.next id).2 = .ended → ∀ es', ((h.run es').next id).2 = .ended) ∧
    (h.closed = false → id ∈ hadAlong [] (start latest) es →
      (h.hasPending id = true ↔ (h.next id).2 ≠ .waiting)) ∧
    (h.closed = true → h.hasPending id = false) := by
  intro h
  have hsynced : h.Synced := (synced_start latest).run es
  have hknows : h.Knows (hadAlong [] (start latest) es) := (knows_start latest).run es
  refine ⟨latest_run (start latest) es, ?_, ?_, ?_, ?_, ?_, ?_⟩
  · intro h' hs es' hdrop hnothing
    have howes := (owes_subscribe hsynced hs).run (hsynced.subscribe hs) hnothing
    refine howes.next_snd ((hknows.subscribe hs).run es') (mem_hadAlong ?_ h' hdrop)
    exact List.mem_append_right _ List.mem_cons_self
  · intro h' a hnext es' hdrop hnothing
    have hdelivered : h.delivered? id (.next id) = some a := by
      simp [delivered?, hnext]
    obtain ⟨_, hslot, _⟩ := delivered?_eq_some hdelivered
    have hh' : h.occur (.next id) = h' := congrArg Prod.fst hnext
    obtain ⟨s, hmem, rfl, _⟩ := mem_of_slot? hslot
    have howes : Owes s.id (some a) h := by
      refine ⟨hsynced.below s hmem, fun slot hs => ?_⟩
      obtain rfl := Option.some.inj (hslot.symm.trans hs)
      rfl
    obtain ⟨_, _, hnone⟩ := howes.delivered hdelivered
    rw [hh'] at hnone
    have hsynced' : h'.Synced := hh' ▸ hsynced.occur (.next s.id)
    have hknows' : h'.Knows (hadAlong [] (start latest) es) := by
      have hnextKnows := hknows.next s.id
      rwa [hnext] at hnextKnows
    have hlater := hnone.run hsynced' hnothing
    rw [Option.or_none] at hlater
    exact hlater.next_snd (hknows'.run es') (mem_hadAlong (mem_of_slot hknows hslot) h' hdrop)
  · intro h' hs es'
    exact (owes_subscribe hsynced hs).delivered_sublist (hsynced.subscribe hs) es'
  · intro hclosed hended es'
    rw [Hub.next_snd] at hended ⊢
    exact peek_run_of_ended hclosed hended es'
  · intro hopen hid
    exact hasPending_of_open hopen hknows hid
  · intro hclosed
    have hnone : h.registered = [] := by
      rw [hknows.registered, if_pos hclosed]
    simp [Hub.hasPending, hnone]

/-- What is published before the hub is closed is delivered after it, and then the end. -/
theorem next_delivers_last_published_small : ∃ h : Hub Nat,
    ((start (some 1)).run [.update 2]).subscribe = .ok (h, 1) ∧
    ((h.run [.update 3, .update 4, .close]).next 1).2 = .value 4 ∧
    ∀ es, ((h.run ([.update 3, .update 4, .close, .next 1] ++ es)).next 1).2 = .ended := by
  refine ⟨((start (some 1)).run [.update 2]).occur .subscribe, rfl, ?_, fun es => ?_⟩
  · obtain ⟨_, hfirst, _⟩ := next_delivers_last_published (some 1) [.update 2] 1
    exact hfirst (((start (some 1)).run [.update 2]).occur .subscribe) rfl
      [.update 3, .update 4, .close] (by simp) rfl
  · obtain ⟨_, _, _, _, hended, _⟩ := next_delivers_last_published (some 1)
      [.update 2, .subscribe, .update 3, .update 4, .close, .next 1] 1
    have hrun := hended (by decide) (by decide) es
    rw [run, List.foldl_append]
    exact hrun

end Hub

end NamespaceTopology
