import NamespaceTopology.Proofs.Broadcast.Slots

set_option autoImplicit false

/-!
Runs of a hub. As long as it is open, a hub knows just the subscriptions that somebody has, and each of
them holds the latest value. Their numbers are given out once only, so whatever is done with one
subscription leaves the others alone, also after the hub was closed.
-/
namespace NamespaceTopology.Hub

variable {α : Type}

/-- What can be done with a hub and its subscriptions. Looking at one of them is no event: it changes
nothing. -/
inductive Event (α : Type) where
  | update (a : α)
  | subscribe
  | next (id : Nat)
  | drop (id : Nat)
  | close

/-- The hub after an event. Whoever is refused leaves it as it was. -/
def occur (h : Hub α) : Event α → Hub α
  | .update a => match h.update a with
    | .ok h => h
    | .error _ => h
  | .subscribe => match h.subscribe with
    | .ok (h, _) => h
    | .error _ => h
  | .next id => (h.next id).1
  | .drop id => h.drop id
  | .close => match h.close with
    | .ok h => h
    | .error _ => h

def run (h : Hub α) (es : List (Event α)) : Hub α := es.foldl occur h

def started? (h : Hub α) : Event α → Option Nat
  | .subscribe => match h.subscribe with
    | .ok (_, id) => some id
    | .error _ => none
  | _ => none

def startedAlong : Hub α → List (Event α) → List Nat
  | _, [] => []
  | h, e :: es => (h.started? e).toList ++ startedAlong (h.occur e) es

/-- The subscriptions that somebody has after an event, where he had `ids` before. -/
def had (ids : List Nat) (h : Hub α) : Event α → List Nat
  | .drop id => ids.filter fun i => i ≠ id
  | e => ids ++ (h.started? e).toList

def hadAlong : List Nat → Hub α → List (Event α) → List Nat
  | ids, _, [] => ids
  | ids, h, e :: es => hadAlong (had ids h e) (h.occur e) es

/-! ### Events that are refused -/

theorem update_of_closed {h : Hub α} (hc : h.closed = true) (a : α) :
    h.update a = .error .hubClosed := (update_eq_error_iff a h).mpr hc

theorem subscribe_of_closed {h : Hub α} (hc : h.closed = true) : h.subscribe = .error .hubClosed :=
  (subscribe_eq_error_iff h).mpr hc

theorem close_of_closed {h : Hub α} (hc : h.closed = true) : h.close = .error .hubClosed :=
  (close_eq_error_iff h).mpr hc

/-- A closed hub refuses to publish, to start a subscription and to be closed, and stays as it is. -/
structure Refuses (h : Hub α) : Prop where
  update (a : α) : h.update a = .error .hubClosed ∧ h.occur (.update a) = h
  subscribe : h.subscribe = .error .hubClosed ∧ h.occur .subscribe = h
  close : h.close = .error .hubClosed ∧ h.occur .close = h

theorem refuses_of_closed {h : Hub α} (hc : h.closed = true) : h.Refuses := by
  refine ⟨fun a => ⟨update_of_closed hc a, ?_⟩, ⟨subscribe_of_closed hc, ?_⟩, ⟨close_of_closed hc, ?_⟩⟩
  · simp only [occur, update_of_closed hc]
  · simp only [occur, subscribe_of_closed hc]
  · simp only [occur, close_of_closed hc]

theorem closed_occur {h : Hub α} (hc : h.closed = true) (e : Event α) :
    (h.occur e).closed = true ∧ (h.occur e).latest = h.latest := by
  have hrefuses := refuses_of_closed hc
  cases e with
  | update a => rw [(hrefuses.update a).2]; exact ⟨hc, rfl⟩
  | subscribe => rw [hrefuses.subscribe.2]; exact ⟨hc, rfl⟩
  | close => rw [hrefuses.close.2]; exact ⟨hc, rfl⟩
  | next id => exact ⟨(closed_next h id).trans hc, latest_next h id⟩
  | drop _ => exact ⟨hc, rfl⟩

theorem closed_run {h : Hub α} (hc : h.closed = true) (es : List (Event α)) :
    (h.run es).closed = true ∧ (h.run es).latest = h.latest := by
  induction es generalizing h with
  | nil => exact ⟨hc, rfl⟩
  | cons e es ih =>
    obtain ⟨hc', hlatest⟩ := closed_occur hc e
    obtain ⟨hclosed, hsame⟩ := ih hc'
    exact ⟨hclosed, hsame.trans hlatest⟩

/-! ### One event -/

theorem Synced.occur {h : Hub α} (hh : h.Synced) (e : Event α) : (h.occur e).Synced := by
  cases e with
  | update a =>
    simp only [Hub.occur]
    split
    next h' hu => exact hh.update hu
    next => exact hh
  | subscribe =>
    simp only [Hub.occur]
    split
    next h' id hs => exact hh.subscribe hs
    next => exact hh
  | next id => exact hh.next id
  | drop id => exact hh.drop id
  | close =>
    simp only [Hub.occur]
    split
    next h' hc => exact hh.close hc
    next => exact hh

theorem Synced.run {h : Hub α} (hh : h.Synced) (es : List (Event α)) : (h.run es).Synced := by
  induction es generalizing h with
  | nil => exact hh
  | cons e es ih => exact ih (hh.occur e)

/-- The subscriptions of a hub are those that somebody has, numbered in their order, and an open hub
publishes to just these. -/
structure Knows (h : Hub α) (ids : List Nat) : Prop where
  subscriptions : h.subscriptions.map Subscription.id = ids
  registered : h.registered = if h.closed then [] else ids
  ascending : ids.Pairwise (· < ·)
  below : ∀ id ∈ ids, id < h.nextId

theorem knows_start (latest : Option α) : (start latest).Knows [] where
  subscriptions := rfl
  registered := rfl
  ascending := List.Pairwise.nil
  below _ hid := absurd hid List.not_mem_nil

theorem map_id_of_same_id {f : Subscription α → Subscription α} (hf : ∀ s, (f s).id = s.id)
    (ss : List (Subscription α)) : (ss.map f).map Subscription.id = ss.map Subscription.id := by
  rw [List.map_map]
  exact List.map_congr_left fun s _ => hf s

/-- A change that keeps the subscriptions and what the hub publishes to. -/
theorem Knows.congr {h h' : Hub α} {ids : List Nat} (hk : h.Knows ids)
    (hsubscriptions : h'.subscriptions.map Subscription.id = h.subscriptions.map Subscription.id)
    (hregistered : h'.registered = h.registered) (hclosed : h'.closed = h.closed)
    (hnext : h'.nextId = h.nextId) : h'.Knows ids where
  subscriptions := hsubscriptions.trans hk.subscriptions
  registered := by rw [hregistered, hclosed, hk.registered]
  ascending := hk.ascending
  below id hid := by rw [hnext]; exact hk.below id hid

theorem Knows.update {h h' : Hub α} {ids : List Nat} (hk : h.Knows ids) {a : α}
    (hu : h.update a = .ok h') : h'.Knows ids := by
  obtain ⟨_, rfl⟩ := update_eq_ok hu
  refine hk.congr (map_id_of_same_id (fun s => ?_) h.subscriptions) rfl rfl rfl
  split <;> rfl

theorem Knows.subscribe {h h' : Hub α} {ids : List Nat} (hk : h.Knows ids) {id : Nat}
    (hs : h.subscribe = .ok (h', id)) : h'.Knows (ids ++ [id]) := by
  obtain ⟨hopen, rfl, rfl⟩ := subscribe_eq_ok hs
  refine ⟨?_, ?_, ?_, ?_⟩
  · rw [List.map_append, hk.subscriptions]
    rfl
  · simp [hopen, hk.registered]
  · refine List.pairwise_append.mpr ⟨hk.ascending, List.pairwise_singleton _ _, fun i hi j hj => ?_⟩
    rw [List.mem_singleton.mp hj]
    exact hk.below i hi
  · intro i hi
    rcases List.mem_append.mp hi with hold | hnew
    · exact Nat.lt_succ_of_lt (hk.below i hold)
    · rw [List.mem_singleton.mp hnew]
      exact Nat.lt_succ_self _

theorem Knows.next {h : Hub α} {ids : List Nat} (hk : h.Knows ids) (id : Nat) :
    (h.next id).1.Knows ids := by
  unfold Hub.next
  split
  · refine hk.congr (map_id_of_same_id (fun s => ?_) h.subscriptions) rfl rfl rfl
    split <;> rfl
  · exact hk

theorem Knows.drop {h : Hub α} {ids : List Nat} (hk : h.Knows ids) (id : Nat) :
    (h.drop id).Knows (ids.filter fun i => i ≠ id) := by
  refine ⟨?_, ?_, ?_, ?_⟩
  · rw [← hk.subscriptions, List.filter_map]
    rfl
  · simp only [Hub.drop, hk.registered]
    split <;> rfl
  · exact hk.ascending.sublist List.filter_sublist
  · intro i hi
    exact hk.below i (List.mem_filter.mp hi).1

theorem Knows.close {h h' : Hub α} {ids : List Nat} (hk : h.Knows ids) (hc : h.close = .ok h') :
    h'.Knows ids := by
  obtain ⟨_, rfl⟩ := close_eq_ok hc
  exact ⟨hk.subscriptions, rfl, hk.ascending, hk.below⟩

theorem Knows.occur {h : Hub α} {ids : List Nat} (hk : h.Knows ids) (e : Event α) :
    (h.occur e).Knows (had ids h e) := by
  cases e with
  | update a =>
    simp only [Hub.occur, had, started?, Option.toList_none, List.append_nil]
    split
    next h' hu => exact hk.update hu
    next => exact hk
  | subscribe =>
    simp only [Hub.occur, had, started?]
    cases hs : h.subscribe with
    | ok p => exact hk.subscribe hs
    | error e => simpa using hk
  | next id =>
    simp only [Hub.occur, had, started?, Option.toList_none, List.append_nil]
    exact hk.next id
  | drop id => exact hk.drop id
  | close =>
    simp only [Hub.occur, had, started?, Option.toList_none, List.append_nil]
    split
    next h' hc => exact hk.close hc
    next => exact hk

theorem Knows.run {h : Hub α} {ids : List Nat} (hk : h.Knows ids) (es : List (Event α)) :
    (h.run es).Knows (hadAlong ids h es) := by
  induction es generalizing h ids with
  | nil => exact hk
  | cons e es ih => exact ih (hk.occur e)

/-! ### Numbers -/

theorem nextId_occur (h : Hub α) (e : Event α) : h.nextId ≤ (h.occur e).nextId := by
  cases e with
  | update a =>
    simp only [occur]
    split
    next h' hu =>
      obtain ⟨_, rfl⟩ := update_eq_ok hu
      exact Nat.le_refl _
    next => exact Nat.le_refl _
  | subscribe =>
    simp only [occur]
    split
    next h' id hs =>
      obtain ⟨_, _, rfl⟩ := subscribe_eq_ok hs
      exact Nat.le_succ _
    next => exact Nat.le_refl _
  | next id =>
    simp only [occur, Hub.next]
    split <;> exact Nat.le_refl _
  | drop id => exact Nat.le_refl _
  | close =>
    simp only [occur]
    split
    next h' hc =>
      obtain ⟨_, rfl⟩ := close_eq_ok hc
      exact Nat.le_refl _
    next => exact Nat.le_refl _

theorem started?_eq_some {h : Hub α} {e : Event α} {id : Nat} (hs : h.started? e = some id) :
    e = .subscribe ∧ h.subscribe = .ok (h.occur e, id) := by
  cases e with
  | subscribe =>
    refine ⟨rfl, ?_⟩
    simp only [started?] at hs
    simp only [occur]
    split at hs
    next h' i heq =>
      obtain rfl := Option.some.inj hs
      exact heq
    next => cases hs
  | update _ | next _ | drop _ | close => cases hs

/-- No number is given out that was given out before. -/
theorem startedAlong_ascending (h : Hub α) (es : List (Event α)) :
    (h.startedAlong es).Pairwise (· < ·) ∧ ∀ id ∈ h.startedAlong es, h.nextId ≤ id := by
  induction es generalizing h with
  | nil => exact ⟨List.Pairwise.nil, fun id hid => absurd hid List.not_mem_nil⟩
  | cons e es ih =>
    obtain ⟨hascending, hlater⟩ := ih (h.occur e)
    have hle := nextId_occur h e
    rw [startedAlong]
    cases hs : h.started? e with
    | none => exact ⟨hascending, fun id hid => Nat.le_trans hle (hlater id hid)⟩
    | some i =>
      obtain ⟨rfl, hsub⟩ := started?_eq_some hs
      obtain ⟨_, hi, hocc⟩ := subscribe_eq_ok hsub
      have hnext : (h.occur .subscribe).nextId = i + 1 := by
        rw [hocc, hi]
      refine ⟨List.pairwise_cons.mpr ⟨fun id hid => ?_, hascending⟩, fun id hid => ?_⟩
      · have := hlater id hid
        omega
      · rcases List.mem_cons.mp hid with rfl | hrest
        · exact Nat.le_of_eq hi.symm
        · exact Nat.le_trans hle (hlater id hrest)

theorem hadAlong_sublist (ids : List Nat) (h : Hub α) (es : List (Event α)) :
    (hadAlong ids h es).Sublist (ids ++ h.startedAlong es) := by
  induction es generalizing ids h with
  | nil => exact List.sublist_append_left _ _
  | cons e es ih =>
    refine (ih (had ids h e) (h.occur e)).trans ?_
    rw [startedAlong, ← List.append_assoc]
    refine List.Sublist.append_right ?_ _
    cases e with
    | drop id => exact List.filter_sublist.trans (List.sublist_append_left _ _)
    | update _ | subscribe | next _ | close => exact List.Sublist.refl _

/-! ### One subscription and the others -/

/-- Two hubs in which a subscription holds the same and has the same to come. -/
structure Agree (id : Nat) (h h' : Hub α) : Prop where
  slot : h'.slot? id = h.slot? id
  get : h'.get id = h.get id
  peek : h'.peek id = h.peek id
  hasPending : h'.hasPending id = h.hasPending id

theorem get_eq_held (h : Hub α) (id : Nat) : h.get id = (h.slot? id).bind Slot.held := by
  rw [Hub.get, slot?, Option.bind_map]
  rfl

theorem agree_of_slot {id : Nat} {h h' : Hub α} (hslot : h'.slot? id = h.slot? id)
    (hregistered : id ∈ h'.registered ↔ id ∈ h.registered) : Agree id h h' := by
  have hpending (k : Hub α) : k.hasPending id =
      (decide (id ∈ k.registered) && (k.slot? id).any Slot.isUnseen) := by
    rw [Hub.hasPending, slot?, Option.any_map]
  refine ⟨hslot, ?_, ?_, ?_⟩
  · rw [get_eq_held, get_eq_held, hslot]
  · have hsame : (h'.find? id).map Subscription.slot = (h.find? id).map Subscription.slot := hslot
    rw [Hub.peek, Hub.peek, hsame]
    simp only [hregistered]
  · rw [hpending, hpending, hslot]
    simp only [hregistered]

theorem registered_next (h : Hub α) (id : Nat) : (h.next id).1.registered = h.registered := by
  unfold Hub.next
  split <;> rfl

theorem agree_next {h : Hub α} {id other : Nat} (hne : id ≠ other) :
    Agree id h (h.next other).1 := by
  refine agree_of_slot (slot?_next_other hne) ?_
  rw [registered_next]

theorem agree_drop {h : Hub α} {id other : Nat} (hne : id ≠ other) : Agree id h (h.drop other) := by
  refine agree_of_slot (slot?_drop_other h hne) ?_
  simp [Hub.drop, hne]

theorem Knows.exists_slot {h : Hub α} {ids : List Nat} (hk : h.Knows ids) {id : Nat}
    (hid : id ∈ ids) : ∃ slot, h.slot? id = some slot := by
  rw [← hk.subscriptions] at hid
  obtain ⟨s, hs, rfl⟩ := List.mem_map.mp hid
  have hsome : (h.find? s.id).isSome = true := by
    rw [find?, List.find?_isSome]
    exact ⟨s, hs, by simp⟩
  obtain ⟨x, hx⟩ := Option.isSome_iff_exists.mp hsome
  exact ⟨x.slot, by rw [slot?, hx]; rfl⟩

theorem Synced.get_eq_latest {h : Hub α} (hh : h.Synced) {ids : List Nat} (hk : h.Knows ids) {id : Nat}
    (hid : id ∈ ids) : h.get id = h.latest := by
  obtain ⟨slot, hslot⟩ := hk.exists_slot hid
  rw [get_eq_held, hslot]
  exact hh.held_slot hslot

/-- The slots of a hub are those of the subscriptions that somebody has, in the order in which they were
started, under numbers that are never given out again. Each holds the latest value. A closed hub has
let go of them all, and refuses everything that would change what they hold. -/
theorem slots_are_had (latest : Option α) (es : List (Event α)) :
    let h := (start latest).run es
    let ids := hadAlong [] (start latest) es
    ((start latest).startedAlong es).Pairwise (· < ·) ∧
    ids.Sublist ((start latest).startedAlong es) ∧
    h.subscriptions.map Subscription.id = ids ∧
    (∀ id ∈ ids, h.get id = h.latest) ∧
    (h.closed = false → h.registered = ids ∧ h.subscriberCount = ids.length) ∧
    (h.closed = true → h.registered = [] ∧ h.subscriberCount = 0 ∧ h.Refuses ∧
      ∀ es', (h.run es').closed = true ∧ (h.run es').latest = h.latest) ∧
    ∀ id other, id ≠ other → Agree id h (h.next other).1 ∧ Agree id h (h.drop other) := by
  intro h ids
  have hsynced : h.Synced := (synced_start latest).run es
  have hknows : h.Knows ids := (knows_start latest).run es
  refine ⟨(startedAlong_ascending _ es).1, hadAlong_sublist [] _ es, hknows.subscriptions,
    fun id hid => hsynced.get_eq_latest hknows hid, fun hopen => ?_, fun hclosed => ?_,
    fun id other hne => ⟨agree_next hne, agree_drop hne⟩⟩
  · have hregistered : h.registered = ids := by
      rw [hknows.registered, if_neg (by simp [hopen])]
    exact ⟨hregistered, congrArg List.length hregistered⟩
  · have hregistered : h.registered = [] := by
      rw [hknows.registered, if_pos hclosed]
    exact ⟨hregistered, congrArg List.length hregistered, refuses_of_closed hclosed, closed_run hclosed⟩

theorem slots_are_had_small :
    let h := (start (some 1)).run [.subscribe, .subscribe, .update 7, .drop 1, .next 2]
    h.closed = false ∧ h.registered = [2] ∧ h.get 2 = some 7 ∧
    (h.run [.close]).closed = true ∧ (h.run [.close]).registered = [] := by
  intro h
  have hopen : h.closed = false := by decide
  have hclosed : ((start (some 1)).run ([.subscribe, .subscribe, .update 7, .drop 1, .next 2] ++
      [.close])).closed = true := by
    decide
  obtain ⟨_, _, _, hget, hregistered, _⟩ :=
    slots_are_had (some 1) [.subscribe, .subscribe, .update 7, .drop 1, .next 2]
  obtain ⟨_, _, _, _, _, hnone, _⟩ := slots_are_had (some 1)
    ([.subscribe, .subscribe, .update 7, .drop 1, .next 2] ++ [.close])
  exact ⟨hopen, (hregistered hopen).1, hget 2 (by decide), hclosed, (hnone hclosed).1⟩

end NamespaceTopology.Hub
