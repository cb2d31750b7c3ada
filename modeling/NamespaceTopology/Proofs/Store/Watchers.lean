import NamespaceTopology.Proofs.Store.Contents

set_option autoImplicit false

/-!
How many watches somebody has on a key. It depends on nothing but the cells that watches are on and on
which of them were dropped, so a watch that was started and is dropped again does not count any more.
-/
namespace NamespaceTopology.Store

theorem map_modify_of_eq {α β : Type} {g : α → β} {f : α → α} (hf : ∀ x, g (f x) = g x) (i : Nat)
    (xs : List α) : (xs.modify i f).map g = xs.map g := by
  refine List.ext_getElem? fun j => ?_
  simp only [List.getElem?_map, List.getElem?_modify]
  cases xs[j]? with
  | none => rfl
  | some x =>
    simp only [Option.map_eq_map, Option.map_some, Option.some.injEq]
    split
    · exact hf x
    · rfl

theorem modify_concat {α : Type} (f : α → α) (xs : List α) (x : α) :
    (xs ++ [x]).modify xs.length f = xs ++ [f x] := by
  induction xs with
  | nil => rfl
  | cons y ys ih => exact congrArg (List.cons y) ih

/-! ### Where watches are -/

/-- The cell that each watch is on, and whether nobody has the watch any more. -/
def seats (s : Store) : List (Nat × Bool) := s.watches.map fun w => (w.cell, w.dropped)

theorem watcherCount_eq (key : String) (s : Store) : s.watcherCount key =
    match s.cell? key with
    | none => 0
    | some c => s.seats.countP fun p => p.1 = c && !p.2 := by
  unfold watcherCount
  cases s.cell? key with
  | none => rfl
  | some c =>
    simp only [seats, List.countP_map]
    rfl

theorem watcherCount_congr {s s' : Store} (h : s'.keys = s.keys ∧ s'.seats = s.seats) (key : String) :
    s'.watcherCount key = s.watcherCount key := by
  rw [watcherCount_eq, watcherCount_eq, cell?, cell?, h.1, h.2]

theorem seats_serve (w : Nat) (s : Store) : (s.serve w).1.seats = s.seats := by
  unfold serve
  split
  · refine map_modify_of_eq ?_ w s.watches
    intro x
    rfl
  · rfl

theorem seats_look (w : Nat) (s : Store) : (s.look w).1.seats = s.seats := by
  unfold look
  split
  · rfl
  · split
    · exact seats_serve w s
    · rfl

theorem seats_closeWatch (w : Nat) (s : Store) : (s.closeWatch w).seats = s.seats := by
  refine map_modify_of_eq ?_ w s.watches
  intro x
  rfl

theorem seats_dropWatch (w : Nat) (s : Store) :
    (s.dropWatch w).seats = s.seats.modify w fun p => (p.1, true) := by
  refine List.ext_getElem? fun j => ?_
  simp only [seats, dropWatch, List.getElem?_map, List.getElem?_modify]
  cases s.watches[j]? with
  | none => rfl
  | some x =>
    simp only [Option.map_eq_map, Option.map_some, Option.some.injEq]
    split <;> rfl

theorem seats_watch (key : String) (s : Store) :
    (s.watch key).1.seats = s.seats ++ [((s.cell key).2, false)] := by
  simp [watch, seats, watches_cell]

theorem seats_write (key : String) (content : Option Value) (s : Store) :
    (s.write key content).seats = s.seats := by
  simp only [seats, write, List.map_map, watches_cell]
  refine List.map_congr_left fun x _ => ?_
  by_cases hx : x.cell = (s.cell key).2 <;> simp [hx]

theorem seats_closeKey (key : String) (s : Store) : (s.closeKey key).seats = s.seats := by
  unfold closeKey
  split <;> rfl

theorem seats_leave (waiter : Nat) (s : Store) : (s.leave waiter).seats = s.seats := by
  simp only [seats, leave, List.map_map]
  rfl

theorem seats_resume (waiter : Nat) (s : Store) : (s.resume waiter).1.seats = s.seats := by
  unfold resume
  split
  · rfl
  next w _ =>
    split
    · have hserve := seats_serve w s
      rcases h : s.serve w with ⟨s', signal⟩
      rw [h] at hserve
      cases signal with
      | waiting => exact hserve
      | changed | ended => exact (seats_leave waiter s').trans hserve
    · rfl

theorem seats_wait (w : Nat) (s : Store) : (s.wait w).1.seats = s.seats := by
  unfold wait
  simp only
  split
  · rfl
  · refine (seats_resume s.nextWaiter _).trans (map_modify_of_eq ?_ w s.watches)
    intro x
    rfl

/-! ### Watches are on cells -/

def Placed (s : Store) : Prop := ∀ c ∈ s.watches.map Watch.cell, c < s.cells.length

theorem placed_empty : empty.Placed := fun _ hc => absurd hc List.not_mem_nil

theorem Placed.of_cells {s s' : Store} (hs : s.Placed)
    (hwatches : s'.watches.map Watch.cell = s.watches.map Watch.cell)
    (hcells : s.cells.length ≤ s'.cells.length) : s'.Placed := by
  intro c hc
  rw [hwatches] at hc
  exact Nat.lt_of_lt_of_le (hs c hc) hcells

theorem length_cells_cell (key : String) (s : Store) :
    s.cells.length ≤ (s.cell key).1.cells.length := by
  unfold cell
  split
  · exact Nat.le_refl _
  · rw [List.length_append]
    exact Nat.le_add_right _ _

theorem Placed.write {s : Store} (hs : s.Placed) (key : String) (content : Option Value) :
    (s.write key content).Placed := by
  refine hs.of_cells ?_ ?_
  · rw [← watches_cell key s]
    simp only [Store.write, List.map_map]
    refine List.map_congr_left fun x _ => ?_
    by_cases hx : x.cell = (s.cell key).2 <;> simp [hx]
  · simpa [Store.write] using length_cells_cell key s

theorem Placed.closeKey {s : Store} (hs : s.Placed) (key : String) : (s.closeKey key).Placed := by
  unfold Store.closeKey
  split
  · exact hs
  · exact hs.of_cells rfl (Nat.le_of_eq (List.length_modify ..).symm)

theorem Placed.watch {s : Store} (hs : s.Placed) (hbounded : s.Bounded) (key : String) :
    (s.watch key).1.Placed := by
  intro c hc
  simp only [Store.watch, List.map_append, watches_cell] at hc
  rcases List.mem_append.mp hc with hold | hnew
  · exact Nat.lt_of_lt_of_le (hs c hold) (length_cells_cell key s)
  · obtain rfl := List.mem_singleton.mp hnew
    exact hbounded.cell_lt key

theorem Placed.modify {s : Store} (hs : s.Placed) (i : Nat) {f : Watch → Watch}
    (hf : ∀ x, (f x).cell = x.cell) : Placed { s with watches := s.watches.modify i f } :=
  hs.of_cells (map_modify_of_eq hf i s.watches) (Nat.le_refl _)

theorem Placed.serve {s : Store} (hs : s.Placed) (w : Nat) : (s.serve w).1.Placed := by
  unfold Store.serve
  split
  · exact hs.modify w fun _ => rfl
  · exact hs

theorem Placed.leave {s : Store} (hs : s.Placed) (waiter : Nat) : (s.leave waiter).Placed := by
  refine hs.of_cells ?_ (Nat.le_refl _)
  simp only [Store.leave, List.map_map]
  rfl

theorem Placed.resume {s : Store} (hs : s.Placed) (waiter : Nat) : (s.resume waiter).1.Placed := by
  unfold Store.resume
  split
  · exact hs
  next w _ =>
    split
    · have hserve := hs.serve w
      rcases h : s.serve w with ⟨s', signal⟩
      rw [h] at hserve
      cases signal with
      | waiting => exact hserve
      | changed | ended => exact hserve.leave waiter
    · exact hs

theorem Placed.occur {s : Store} (hs : s.Placed) (hbounded : s.Bounded) (e : Event) :
    (s.occur e).Placed := by
  cases e with
  | set key data => exact hs.write key _
  | setWithVersion key version data => exact hs.write key _
  | delete key => exact hs.write key _
  | closeKey key => exact hs.closeKey key
  | watch key => exact hs.watch hbounded key
  | look w =>
    change (s.look w).1.Placed
    unfold look
    split
    · exact hs
    · split
      · exact hs.serve w
      · exact hs
  | closeWatch w | dropWatch w => exact hs.modify w fun _ => rfl
  | wait w =>
    change (s.wait w).1.Placed
    have hnext : Placed { s with nextWaiter := s.nextWaiter + 1 } := hs
    unfold wait
    simp only
    split
    · exact hnext
    · refine (hnext.modify w ?_).resume s.nextWaiter
      exact fun _ => rfl
  | resume waiter => exact hs.resume waiter
  | leave waiter => exact hs.leave waiter

/-! ### A watch that comes and goes -/

theorem countP_concat_dropped (c d : Nat) (seats : List (Nat × Bool)) :
    (seats ++ [(d, true)]).countP (fun p => p.1 = c && !p.2) =
      seats.countP fun p => p.1 = c && !p.2 := by
  simp

theorem Placed.countP_new {s : Store} (hs : s.Placed) :
    (s.seats.countP fun p => p.1 = s.cells.length && !p.2) = 0 := by
  rw [List.countP_eq_zero]
  intro p hp
  obtain ⟨w, hw, rfl⟩ := List.mem_map.mp hp
  have hlt : w.cell < s.cells.length := hs w.cell (List.mem_map_of_mem hw)
  simp [Nat.ne_of_lt hlt]

theorem Placed.watcherCount_cell {s : Store} (hs : s.Placed) (key key' : String) {s' : Store} {c : Nat}
    (hkeys : s'.keys = (s.cell key).1.keys) (hseats : s'.seats = s.seats ++ [(c, true)]) :
    s'.watcherCount key' = s.watcherCount key' := by
  rw [watcherCount_eq, watcherCount_eq, hseats]
  have hcell : s'.cell? key' = (s.cell key).1.cell? key' := congrArg (List.lookup key') hkeys
  rw [hcell]
  by_cases hkey : key' = key
  · subst hkey
    rw [cell?_cell]
    cases h : s.cell? key' with
    | some d =>
      rw [cell_of_some h]
      exact countP_concat_dropped d c s.seats
    | none =>
      rw [cell_of_none h]
      exact (countP_concat_dropped _ c s.seats).trans hs.countP_new
  · rw [cell?_cell_other hkey]
    cases s.cell? key' with
    | none => rfl
    | some d => exact countP_concat_dropped d c s.seats

theorem Placed.watcherCount_dropWatch_watch {s : Store} (hs : s.Placed) (key key' : String) :
    ((s.watch key).1.dropWatch (s.watch key).2).watcherCount key' = s.watcherCount key' := by
  refine hs.watcherCount_cell key key' (c := (s.cell key).2) rfl ?_
  have hlength : s.seats.length = s.watches.length := List.length_map ..
  rw [seats_dropWatch, seats_watch, watch_snd, ← hlength]
  exact modify_concat _ s.seats _

end NamespaceTopology.Store
