import NamespaceTopology.Broadcast.Hub

set_option autoImplicit false

/-!
The slot of one subscription under every operation of a hub, and the invariant of the hub's state:
each slot holds the latest value, seen or not, and an open hub knows just the subscriptions that
somebody has.
-/
namespace NamespaceTopology.Hub

variable {α : Type}

def slot? (id : Nat) (h : Hub α) : Option (Slot α) := (h.find? id).map Subscription.slot

structure Synced (h : Hub α) : Prop where
  current : ∀ s ∈ h.subscriptions, s.slot.held = h.latest
  registered : h.closed = false → ∀ s ∈ h.subscriptions, s.id ∈ h.registered
  had : ∀ i ∈ h.registered, ∃ s ∈ h.subscriptions, s.id = i
  below : ∀ s ∈ h.subscriptions, s.id < h.nextId

theorem synced_start (latest : Option α) : (start latest).Synced := by
  refine ⟨?_, ?_, ?_, ?_⟩
  · intro s hs
    exact absurd hs List.not_mem_nil
  · intro _ s hs
    exact absurd hs List.not_mem_nil
  · intro i hi
    exact absurd hi List.not_mem_nil
  · intro s hs
    exact absurd hs List.not_mem_nil

theorem mem_of_slot? {h : Hub α} {id : Nat} {slot : Slot α} (hs : h.slot? id = some slot) :
    ∃ s ∈ h.subscriptions, s.id = id ∧ s.slot = slot := by
  obtain ⟨s, hfind, hslot⟩ := Option.map_eq_some_iff.mp hs
  have hid : s.id = id := by simpa using List.find?_some hfind
  exact ⟨s, List.mem_of_find?_eq_some hfind, hid, hslot⟩

theorem Synced.held_slot {h : Hub α} (hh : h.Synced) {id : Nat} {slot : Slot α}
    (hs : h.slot? id = some slot) : slot.held = h.latest := by
  obtain ⟨s, hmem, _, rfl⟩ := mem_of_slot? hs
  exact hh.current s hmem

theorem find?_map (f : Subscription α → Subscription α) (hf : ∀ s, (f s).id = s.id) (id : Nat)
    (ss : List (Subscription α)) :
    (ss.map f).find? (fun s => s.id = id) = (ss.find? fun s => s.id = id).map f := by
  rw [List.find?_map]
  simp only [Function.comp_def, hf]

/-! ### Publishing -/

theorem update_eq_ok {a : α} {h h' : Hub α} (hu : h.update a = .ok h') :
    h.closed = false ∧ h' = { h with
      latest := some a
      subscriptions := h.subscriptions.map fun s =>
        if s.id ∈ h.registered then { s with slot := .unseen a } else s } := by
  unfold update at hu
  split at hu
  · cases hu
  · exact ⟨by simp_all, (Except.ok.inj hu).symm⟩

theorem exists_update_of_open (a : α) {h : Hub α} (hopen : h.closed = false) :
    ∃ h', h.update a = .ok h' := by
  unfold update
  rw [if_neg (by simp [hopen])]
  exact ⟨_, rfl⟩

theorem slot?_update {a : α} {h h' : Hub α} (hh : h.Synced) (hu : h.update a = .ok h') (id : Nat) :
    h'.slot? id = (h.slot? id).map fun _ => .unseen a := by
  obtain ⟨hopen, rfl⟩ := update_eq_ok hu
  unfold slot? find?
  rw [find?_map _ (fun s => by split <;> rfl), Option.map_map, Option.map_map]
  cases hfind : h.subscriptions.find? fun s => s.id = id with
  | none => rfl
  | some s =>
    have hreg : s.id ∈ h.registered := hh.registered hopen s (List.mem_of_find?_eq_some hfind)
    simp [hreg]

theorem Synced.update {a : α} {h h' : Hub α} (hh : h.Synced) (hu : h.update a = .ok h') :
    h'.Synced := by
  obtain ⟨hopen, rfl⟩ := update_eq_ok hu
  refine ⟨?_, ?_, ?_, ?_⟩
  · intro s hs
    obtain ⟨x, hx, rfl⟩ := List.mem_map.mp hs
    simp [hh.registered hopen x hx, Slot.held]
  · intro _ s hs
    obtain ⟨x, hx, rfl⟩ := List.mem_map.mp hs
    have hreg := hh.registered hopen x hx
    simp [hreg]
  · intro i hi
    obtain ⟨x, hx, rfl⟩ := hh.had i hi
    exact ⟨_, List.mem_map_of_mem hx, by split <;> rfl⟩
  · intro s hs
    obtain ⟨x, hx, rfl⟩ := List.mem_map.mp hs
    have hlt := hh.below x hx
    split <;> exact hlt

/-! ### Subscribing -/

theorem subscribe_eq_ok {h h' : Hub α} {id : Nat} (hs : h.subscribe = .ok (h', id)) :
    h.closed = false ∧ id = h.nextId ∧ h' = { h with
      nextId := h.nextId + 1
      registered := h.registered ++ [h.nextId]
      subscriptions := h.subscriptions ++ [⟨h.nextId, .ofLatest h.latest⟩] } := by
  unfold subscribe at hs
  split at hs
  · cases hs
  · obtain ⟨rfl, rfl⟩ := Prod.mk.inj (Except.ok.inj hs)
    exact ⟨by simp_all, rfl, rfl⟩

theorem slot?_subscribe_self {h h' : Hub α} {id : Nat} (hh : h.Synced)
    (hs : h.subscribe = .ok (h', id)) : h'.slot? id = some (.ofLatest h.latest) := by
  obtain ⟨_, rfl, rfl⟩ := subscribe_eq_ok hs
  have hnone : h.subscriptions.find? (fun s => s.id = h.nextId) = none := by
    rw [List.find?_eq_none]
    intro s hmem
    have hlt := hh.below s hmem
    simp only [decide_eq_true_eq]
    omega
  unfold slot? find?
  rw [List.find?_append, hnone]
  simp

theorem slot?_subscribe_other {h h' : Hub α} {new id : Nat} (hs : h.subscribe = .ok (h', new))
    (hid : id ≠ new) : h'.slot? id = h.slot? id := by
  obtain ⟨_, rfl, rfl⟩ := subscribe_eq_ok hs
  unfold slot? find?
  rw [List.find?_append]
  cases h.subscriptions.find? fun s => s.id = id with
  | none => simp [Ne.symm hid]
  | some s => rfl

theorem Synced.subscribe {h h' : Hub α} {id : Nat} (hh : h.Synced)
    (hs : h.subscribe = .ok (h', id)) : h'.Synced := by
  obtain ⟨hopen, rfl, rfl⟩ := subscribe_eq_ok hs
  refine ⟨?_, ?_, ?_, ?_⟩
  · intro s hmem
    rcases List.mem_append.mp hmem with hold | hnew
    · exact hh.current s hold
    · rw [List.mem_singleton.mp hnew]
      exact Slot.held_ofLatest h.latest
  · intro _ s hmem
    rcases List.mem_append.mp hmem with hold | hnew
    · exact List.mem_append_left _ (hh.registered hopen s hold)
    · rw [List.mem_singleton.mp hnew]
      exact List.mem_append_right _ List.mem_cons_self
  · intro i hi
    rcases List.mem_append.mp hi with hold | hnew
    · obtain ⟨s, hs, hid⟩ := hh.had i hold
      exact ⟨s, List.mem_append_left _ hs, hid⟩
    · rw [List.mem_singleton.mp hnew]
      exact ⟨_, List.mem_append_right _ List.mem_cons_self, rfl⟩
  · intro s hmem
    rcases List.mem_append.mp hmem with hold | hnew
    · exact Nat.lt_succ_of_lt (hh.below s hold)
    · rw [List.mem_singleton.mp hnew]
      exact Nat.lt_succ_self _

/-! ### Asking for the next value -/

theorem slot?_setSlot (id i : Nat) (slot : Slot α) (h : Hub α) :
    (h.setSlot i slot).slot? id = if id = i then (h.slot? id).map fun _ => slot else h.slot? id := by
  unfold slot? find? setSlot
  rw [find?_map _ (fun s => by split <;> rfl), Option.map_map]
  cases hfind : h.subscriptions.find? fun s => s.id = id with
  | none => simp
  | some s =>
    have hid : s.id = id := by simpa using List.find?_some hfind
    by_cases heq : id = i
    · simp [hid, heq]
    · simp [hid, heq]

/-- One who waits has a slot. -/
theorem Synced.exists_slot_of_waiting {h : Hub α} (hh : h.Synced) {id : Nat}
    (hp : h.peek id = .waiting) : ∃ slot, h.slot? id = some slot := by
  unfold peek at hp
  split at hp
  · cases hp
  · split at hp
    next hreg =>
      obtain ⟨s, hs, hid⟩ := hh.had id hreg
      have hsome : (h.find? id).isSome = true := by
        rw [find?, List.find?_isSome]
        exact ⟨s, hs, by simpa using hid⟩
      obtain ⟨x, hx⟩ := Option.isSome_iff_exists.mp hsome
      exact ⟨x.slot, by rw [slot?, hx]; rfl⟩
    next => cases hp

theorem peek_eq_value {h : Hub α} {id : Nat} {a : α} :
    h.peek id = .value a ↔ h.slot? id = some (.unseen a) := by
  unfold peek slot?
  split
  next b hb => simp [hb]
  next hne =>
    constructor
    · intro hp
      split at hp <;> cases hp
    · intro hb
      exact absurd hb (hne a)

theorem next_of_unseen {h : Hub α} {id : Nat} {a : α} (hs : h.slot? id = some (.unseen a)) :
    h.next id = (h.setSlot id (.seen a), .value a) := by
  unfold next
  rw [peek_eq_value.mpr hs]

theorem next_of_not_unseen {h : Hub α} {id : Nat} (hs : ∀ a, h.slot? id ≠ some (.unseen a)) :
    h.next id = (h, h.peek id) := by
  unfold next
  split
  next a ha => exact absurd (peek_eq_value.mp ha) (hs a)
  next => rfl

theorem slot?_next_other {h : Hub α} {id i : Nat} (hid : id ≠ i) :
    (h.next i).1.slot? id = h.slot? id := by
  unfold next
  split
  · rw [slot?_setSlot, if_neg hid]
  · rfl

theorem Synced.setSlot {h : Hub α} {id : Nat} {slot : Slot α} (hh : h.Synced)
    (hslot : slot.held = h.latest) : (h.setSlot id slot).Synced := by
  refine ⟨?_, ?_, ?_, ?_⟩
  · intro s hs
    obtain ⟨x, hx, rfl⟩ := List.mem_map.mp hs
    split
    · exact hslot
    · exact hh.current x hx
  · intro hopen s hs
    obtain ⟨x, hx, rfl⟩ := List.mem_map.mp hs
    have hreg := hh.registered hopen x hx
    split <;> exact hreg
  · intro i hi
    obtain ⟨x, hx, rfl⟩ := hh.had i hi
    exact ⟨_, List.mem_map_of_mem hx, by split <;> rfl⟩
  · intro s hs
    obtain ⟨x, hx, rfl⟩ := List.mem_map.mp hs
    have hlt := hh.below x hx
    split <;> exact hlt

theorem Synced.next {h : Hub α} (hh : h.Synced) (id : Nat) : (h.next id).1.Synced := by
  unfold Hub.next
  split
  next a ha =>
    have hheld : (Slot.unseen a).held = h.latest := hh.held_slot (peek_eq_value.mp ha)
    exact hh.setSlot hheld
  next => exact hh

theorem latest_next (h : Hub α) (id : Nat) : (h.next id).1.latest = h.latest := by
  unfold next
  split <;> rfl

theorem closed_next (h : Hub α) (id : Nat) : (h.next id).1.closed = h.closed := by
  unfold next
  split <;> rfl

/-! ### Dropping and closing -/

theorem slot?_drop_self (h : Hub α) (id : Nat) : (h.drop id).slot? id = none := by
  unfold slot? find? drop
  rw [Option.map_eq_none_iff, List.find?_eq_none]
  intro s hs
  simpa using (List.mem_filter.mp hs).2

theorem slot?_drop_other (h : Hub α) {id i : Nat} (hid : id ≠ i) :
    (h.drop i).slot? id = h.slot? id := by
  unfold slot? find? drop
  rw [List.find?_filter]
  congr 2
  funext s
  by_cases hs : s.id = id
  · simp [hs, hid]
  · simp [hs]

theorem Synced.drop {h : Hub α} (hh : h.Synced) (id : Nat) : (h.drop id).Synced := by
  refine ⟨?_, ?_, ?_, ?_⟩
  · intro s hs
    exact hh.current s (List.mem_filter.mp hs).1
  · intro hopen s hs
    obtain ⟨hmem, hne⟩ := List.mem_filter.mp hs
    exact List.mem_filter.mpr ⟨hh.registered hopen s hmem, hne⟩
  · intro i hi
    obtain ⟨hmem, hne⟩ := List.mem_filter.mp hi
    obtain ⟨s, hs, rfl⟩ := hh.had i hmem
    exact ⟨s, List.mem_filter.mpr ⟨hs, hne⟩, rfl⟩
  · intro s hs
    exact hh.below s (List.mem_filter.mp hs).1

theorem close_eq_ok {h h' : Hub α} (hc : h.close = .ok h') :
    h.closed = false ∧ h' = { h with closed := true, registered := [] } := by
  unfold close at hc
  split at hc
  · cases hc
  · exact ⟨by simp_all, (Except.ok.inj hc).symm⟩

theorem close_of_open {h : Hub α} (hopen : h.closed = false) :
    h.close = .ok { h with closed := true, registered := [] } := by
  unfold close
  rw [if_neg (by simp [hopen])]

theorem Synced.close {h h' : Hub α} (hh : h.Synced) (hc : h.close = .ok h') : h'.Synced := by
  obtain ⟨_, rfl⟩ := close_eq_ok hc
  refine ⟨hh.current, ?_, ?_, hh.below⟩
  · intro hopen
    cases hopen
  · intro i hi
    exact absurd hi List.not_mem_nil

end NamespaceTopology.Hub
