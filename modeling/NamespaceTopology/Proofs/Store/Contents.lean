import NamespaceTopology.Proofs.Store.Tracking

set_option autoImplicit false

/-!
What the keys of a store hold after an event: what the event writes to them, and else what they held
before. As long as the cell of a watch has not ended, the watch reads what its key holds.
-/
namespace NamespaceTopology.Store

def Event.writes : Event → Bool
  | .set _ _ | .setWithVersion _ _ _ | .delete _ | .closeKey _ => true
  | .watch _ | .look _ | .closeWatch _ | .dropWatch _ | .wait _ | .resume _ | .leave _ => false

/-- What an event writes to a key. A key whose cell ends is left absent. -/
def Event.written? (key : String) (s : Store) : Event → Option (Option Value)
  | .set k data => if k = key then some (some ⟨nextVersion (s.get key), data⟩) else none
  | .setWithVersion k version data => if k = key then some (some ⟨version, data⟩) else none
  | .delete k => if k = key then some none else none
  | .closeKey k => if k = key then some none else none
  | _ => none

theorem written?_of_not_writes {e : Event} (he : e.writes = false) (key : String) (s : Store) :
    e.written? key s = none := by
  cases e with
  | set _ _ | setWithVersion _ _ _ | delete _ | closeKey _ => cases he
  | watch _ | look _ | closeWatch _ | dropWatch _ | wait _ | resume _ | leave _ => rfl

theorem written?_congr {s s' : Store} {key : String} (h : s'.get key = s.get key) (e : Event) :
    e.written? key s' = e.written? key s := by
  cases e with
  | set k data => simp only [Event.written?, h]
  | _ => rfl

/-- Every key has a cell of its own that has not ended. -/
structure Sound (s : Store) : Prop where
  bounded : s.Bounded
  distinct : ∀ k k' i, s.cell? k = some i → s.cell? k' = some i → k = k'
  live : ∀ k i c, s.cell? k = some i → s.cells[i]? = some c → c.ended = false

theorem sound_empty : empty.Sound where
  bounded p hp := absurd hp List.not_mem_nil
  distinct k k' i hk := by cases hk
  live k i c hk := by cases hk

/-! ### Cells of keys -/

theorem cell_of_some {key : String} {s : Store} {i : Nat} (h : s.cell? key = some i) :
    s.cell key = (s, i) := by
  unfold cell
  rw [h]

theorem cell_of_none {key : String} {s : Store} (h : s.cell? key = none) :
    s.cell key = ({ s with
      keys := (key, s.cells.length) :: s.keys
      cells := s.cells ++ [⟨none, false⟩] }, s.cells.length) := by
  unfold cell
  rw [h]

theorem cell?_cell_other {key key' : String} (hne : key ≠ key') (s : Store) :
    (s.cell key').1.cell? key = s.cell? key := by
  cases h : s.cell? key' with
  | some i => rw [cell_of_some h]
  | none =>
    have hother : (key == key') = false := beq_eq_false_iff_ne.mpr hne
    rw [cell_of_none h]
    simp only [cell?, List.lookup_cons, hother]

theorem Sound.cell {s : Store} (hs : s.Sound) (key : String) : (s.cell key).1.Sound := by
  cases h : s.cell? key with
  | some i =>
    rw [cell_of_some h]
    exact hs
  | none =>
    have hself : (s.cell key).1.cell? key = some s.cells.length := by
      rw [cell?_cell, cell_of_none h]
    have hother {k : String} (hk : k ≠ key) := cell?_cell_other hk s
    have hnew {k : String} (hk : k ≠ key) : s.cell? k ≠ some s.cells.length := fun hcell =>
      absurd (hs.bounded.cell?_lt hcell) (Nat.lt_irrefl _)
    refine ⟨hs.bounded.cell key, ?_, ?_⟩
    · intro k k' i hk hk'
      by_cases hkey : k = key
      · by_cases hkey' : k' = key
        · rw [hkey, hkey']
        · subst hkey
          rw [hself] at hk
          rw [hother hkey', ← hk] at hk'
          exact absurd hk' (hnew hkey')
      · by_cases hkey' : k' = key
        · subst hkey'
          rw [hself] at hk'
          rw [hother hkey, ← hk'] at hk
          exact absurd hk (hnew hkey)
        · rw [hother hkey] at hk
          rw [hother hkey'] at hk'
          exact hs.distinct k k' i hk hk'
    · intro k i c hk hc
      rw [cell_of_none h] at hc
      by_cases hkey : k = key
      · subst hkey
        rw [hself] at hk
        obtain rfl := Option.some.inj hk
        simp only [List.getElem?_append_right (Nat.le_refl _), Nat.sub_self, List.getElem?_cons_zero,
          Option.some.injEq] at hc
        rw [← hc]
      · rw [hother hkey] at hk
        simp only [List.getElem?_append_left (hs.bounded.cell?_lt hk)] at hc
        exact hs.live k i c hk hc

theorem Sound.congr {s s' : Store} (hs : s.Sound) (h : s'.keys = s.keys ∧ s'.cells = s.cells) :
    s'.Sound := by
  have hcell (k : String) : s'.cell? k = s.cell? k := congrArg (fun keys => keys.lookup k) h.1
  refine ⟨hs.bounded.congr h, ?_, ?_⟩
  · intro k k' i hk hk'
    rw [hcell] at hk hk'
    exact hs.distinct k k' i hk hk'
  · intro k i c hk hc
    rw [hcell] at hk
    rw [h.2] at hc
    exact hs.live k i c hk hc

theorem Sound.write {s : Store} (hs : s.Sound) (key : String) (content : Option Value) :
    (s.write key content).Sound := by
  have hcell := hs.cell key
  refine ⟨hs.bounded.write key content, hcell.distinct, ?_⟩
  intro k i c hk hc
  obtain ⟨b, hb, hended⟩ : ∃ b : Cell, (s.cell key).1.cells[i]? = some b ∧ c.ended = b.ended := by
    simp only [Store.write, List.getElem?_modify] at hc
    obtain ⟨b, hb, rfl⟩ := Option.map_eq_some_iff.mp hc
    refine ⟨b, hb, ?_⟩
    split <;> rfl
  rw [hended]
  exact hcell.live k i b hk hb

theorem cell?_closeKey_other {key key' : String} (hne : key ≠ key') (s : Store) :
    (s.closeKey key').cell? key = s.cell? key := by
  unfold closeKey
  split
  · rfl
  · exact lookup_filter_ne hne s.keys

theorem cell?_closeKey_self (key : String) (s : Store) : (s.closeKey key).cell? key = none := by
  unfold closeKey
  split
  · assumption
  · rw [cell?, List.lookup_eq_none_iff]
    intro p hp
    simpa using Ne.symm (of_decide_eq_true (List.mem_filter.mp hp).2)

theorem Sound.closeKey {s : Store} (hs : s.Sound) (key : String) : (s.closeKey key).Sound := by
  have hold {k : String} {i : Nat} (hk : (s.closeKey key).cell? k = some i) :
      k ≠ key ∧ s.cell? k = some i := by
    have hne : k ≠ key := by
      rintro rfl
      rw [cell?_closeKey_self] at hk
      cases hk
    exact ⟨hne, cell?_closeKey_other hne s ▸ hk⟩
  refine ⟨hs.bounded.closeKey key, ?_, ?_⟩
  · intro k k' i hk hk'
    exact hs.distinct k k' i (hold hk).2 (hold hk').2
  · intro k i c hk hc
    obtain ⟨hne, hcell⟩ := hold hk
    refine hs.live k i c hcell ?_
    unfold Store.closeKey at hc
    split at hc
    · exact hc
    next j hj =>
      have hother : j ≠ i := by
        rintro rfl
        exact hne (hs.distinct k key j hcell hj)
      rw [← List.getElem?_modify_ne _ _ hother]
      exact hc

theorem Sound.occur {s : Store} (hs : s.Sound) (e : Event) : (s.occur e).Sound := by
  cases e with
  | set key data => exact hs.write key _
  | setWithVersion key version data => exact hs.write key _
  | delete key => exact hs.write key _
  | closeKey key => exact hs.closeKey key
  | watch key => exact (hs.cell key).congr ⟨rfl, rfl⟩
  | look w => exact hs.congr (cells_look w s)
  | wait w => exact hs.congr (cells_wait w s)
  | resume waiter => exact hs.congr (cells_resume waiter s)
  | closeWatch w | dropWatch w | leave waiter => exact hs.congr ⟨rfl, rfl⟩

/-! ### Contents of keys -/

theorem get_congr {s s' : Store} (h : s'.keys = s.keys ∧ s'.cells = s.cells) (key : String) :
    s'.get key = s.get key := by
  unfold get cell? contentAt
  rw [h.1, h.2]

theorem Sound.get_cell {s : Store} (hs : s.Sound) (key key' : String) :
    (s.cell key').1.get key = s.get key := by
  cases h : s.cell? key' with
  | some i => rw [cell_of_some h]
  | none =>
    by_cases hkey : key = key'
    · subst hkey
      rw [get, cell?_cell, get, h, cell_of_none h]
      simp [contentAt]
    · rw [get, get, cell?_cell_other hkey]
      cases hcell : s.cell? key with
      | none => rfl
      | some i =>
        have hlt := hs.bounded.cell?_lt hcell
        rw [cell_of_none h]
        simp [contentAt, List.getElem?_append_left hlt]

theorem Sound.get_write_other {s : Store} (hs : s.Sound) {key key' : String} (hne : key ≠ key')
    (content : Option Value) : (s.write key' content).get key = s.get key := by
  rw [← hs.get_cell key key']
  have hcell : (s.write key' content).cell? key = (s.cell key').1.cell? key := rfl
  rw [get, get, hcell]
  cases h : (s.cell key').1.cell? key with
  | none => rfl
  | some i =>
    have hother : (s.cell key').2 ≠ i := by
      rintro rfl
      exact hne ((hs.cell key').distinct key key' _ h (cell?_cell key' s))
    simp [contentAt, Store.write, List.getElem?_modify_ne _ _ hother]

theorem Sound.get_closeKey_other {s : Store} (hs : s.Sound) {key key' : String} (hne : key ≠ key') :
    (s.closeKey key').get key = s.get key := by
  rw [get, get, cell?_closeKey_other hne]
  cases h : s.cell? key with
  | none => rfl
  | some i =>
    unfold Store.closeKey
    split
    · rfl
    next j hj =>
      have hother : j ≠ i := by
        rintro rfl
        exact hne (hs.distinct key key' j h hj)
      simp [contentAt, List.getElem?_modify_ne _ _ hother]

theorem Sound.get_written {s : Store} (hs : s.Sound) (key key' : String) (content : Option Value) :
    (s.write key' content).get key =
      (if key' = key then some content else none).getD (s.get key) := by
  by_cases hkey : key' = key
  · subst hkey
    rw [if_pos rfl]
    exact get_write key' content s (hs.bounded.cell_lt key')
  · rw [if_neg hkey]
    exact hs.get_write_other (Ne.symm hkey) content

/-- A key holds what an event writes to it, and else what it held before. -/
theorem Sound.get_occur {s : Store} (hs : s.Sound) (key : String) (e : Event) :
    (s.occur e).get key = (e.written? key s).getD (s.get key) := by
  cases e with
  | set key' data =>
    have h := hs.get_written key key' (some ⟨nextVersion (s.get key'), data⟩)
    by_cases hkey : key' = key
    · subst hkey
      exact h
    · simp only [if_neg hkey] at h
      simp only [Event.written?, if_neg hkey]
      exact h
  | setWithVersion key' version data => exact hs.get_written key key' _
  | delete key' => exact hs.get_written key key' _
  | closeKey key' =>
    simp only [Event.written?]
    by_cases hkey : key' = key
    · subst hkey
      rw [if_pos rfl]
      change (s.closeKey key').get key' = none
      rw [get, cell?_closeKey_self]
      rfl
    · rw [if_neg hkey]
      exact hs.get_closeKey_other (Ne.symm hkey)
  | watch key' => exact (get_congr ⟨rfl, rfl⟩ key).trans (hs.get_cell key key')
  | look w => exact get_congr (cells_look w s) key
  | wait w => exact get_congr (cells_wait w s) key
  | resume waiter => exact get_congr (cells_resume waiter s) key
  | closeWatch w | dropWatch w | leave waiter => exact get_congr ⟨rfl, rfl⟩ key

/-! ### Watches whose cell has ended -/

/-- Nothing will be written any more to the cell that a watch is on. -/
def Ended (w : Nat) (s : Store) : Prop :=
  ∃ x c, s.watches[w]? = some x ∧ s.cells[x.cell]? = some c ∧ c.ended = true

theorem Tracks.contentOf_eq_get {w : Nat} {key : String} {P : Option Value → Prop} {s : Store}
    (h : s.Tracks w key P) (hlive : ¬ s.Ended w) : s.contentOf w = s.get key := by
  obtain ⟨x, c, hx, hc, _, hcell, _⟩ := h
  have hkey : s.cell? key = some x.cell := by
    refine hcell.resolve_left fun hended => hlive ?_
    exact ⟨x, c, hx, hc, hended⟩
  simp [contentOf, hx, get, hkey]

theorem not_ended_of_waiting {w : Nat} {s : Store} (h : s.peek w = .waiting) : ¬ s.Ended w := by
  rintro ⟨x, c, hx, hc, hended⟩
  simp only [peek, hx, hc, Watch.signal, hended, if_true] at h
  split at h
  · cases h
  · split at h <;> cases h

def Stays (s s' : Store) : Prop :=
  ∀ (w : Nat) (x : Watch), s.watches[w]? = some x →
    ∃ x' : Watch, s'.watches[w]? = some x' ∧ x'.cell = x.cell

theorem Stays.trans {s t u : Store} (h : Stays s t) (h' : Stays t u) : Stays s u := by
  intro w x hx
  obtain ⟨y, hy, hcell⟩ := h w x hx
  obtain ⟨z, hz, hcell'⟩ := h' w y hy
  exact ⟨z, hz, hcell'.trans hcell⟩

theorem Stays.of_eq {s s' : Store} (h : s'.watches = s.watches) : Stays s s' :=
  fun _ x hx => ⟨x, h ▸ hx, rfl⟩

theorem stays_map {s : Store} {f : Watch → Watch} (hf : ∀ x, (f x).cell = x.cell) :
    Stays s { s with watches := s.watches.map f } := by
  intro w x hx
  exact ⟨f x, by simp [hx], hf x⟩

theorem stays_modify {s : Store} (i : Nat) {f : Watch → Watch} (hf : ∀ x, (f x).cell = x.cell) :
    Stays s { s with watches := s.watches.modify i f } := by
  intro w x hx
  refine ⟨if i = w then f x else x, by simp [List.getElem?_modify, hx], ?_⟩
  split
  · exact hf x
  · rfl

theorem stays_write (key : String) (content : Option Value) (s : Store) :
    Stays s (s.write key content) := by
  refine (Stays.of_eq (watches_cell key s)).trans (stays_map (f := fun x =>
    if x.cell = (s.cell key).2 then { x with unseen := true } else x) fun x => ?_)
  by_cases hx : x.cell = (s.cell key).2
  · rw [if_pos hx]
  · rw [if_neg hx]

theorem stays_serve (w : Nat) (s : Store) : Stays s (s.serve w).1 := by
  unfold serve
  split
  · exact stays_modify w fun _ => rfl
  · exact .of_eq rfl

theorem stays_leave (waiter : Nat) (s : Store) : Stays s (s.leave waiter) :=
  stays_map fun _ => rfl

theorem stays_resume (waiter : Nat) (s : Store) : Stays s (s.resume waiter).1 := by
  unfold resume
  split
  · exact .of_eq rfl
  next w _ =>
    split
    · have hserve := stays_serve w s
      rcases hs : s.serve w with ⟨s', signal⟩
      rw [hs] at hserve
      cases signal with
      | waiting => exact hserve
      | changed | ended => exact hserve.trans (stays_leave waiter s')
    · exact .of_eq rfl

theorem stays_occur (s : Store) (e : Event) : Stays s (s.occur e) := by
  cases e with
  | set key data => exact stays_write key _ s
  | setWithVersion key version data => exact stays_write key _ s
  | delete key => exact stays_write key _ s
  | closeKey key =>
    refine .of_eq ?_
    change (s.closeKey key).watches = s.watches
    unfold closeKey
    split <;> rfl
  | watch key =>
    intro w x hx
    rw [← watches_cell key s] at hx
    refine ⟨x, ?_, rfl⟩
    simp only [occur, Store.watch, List.getElem?_append_left (List.getElem?_eq_some_iff.mp hx).1, hx]
  | look w =>
    change Stays s (s.look w).1
    unfold look
    split
    · exact .of_eq rfl
    · split
      · exact stays_serve w s
      · exact .of_eq rfl
  | closeWatch w | dropWatch w => exact stays_modify w fun _ => rfl
  | wait w =>
    have hnext : Stays s { s with nextWaiter := s.nextWaiter + 1 } := .of_eq rfl
    change Stays s (s.wait w).1
    unfold wait
    simp only
    split
    · exact hnext
    · refine Stays.trans (hnext.trans (stays_modify w ?_)) (stays_resume s.nextWaiter _)
      exact fun _ => rfl
  | resume waiter => exact stays_resume waiter s
  | leave waiter => exact stays_leave waiter s

theorem ended_cell_write {s : Store} {i : Nat} {c : Cell} (hc : s.cells[i]? = some c)
    (hended : c.ended = true) (key : String) (content : Option Value) :
    ∃ c', (s.write key content).cells[i]? = some c' ∧ c'.ended = true := by
  refine ⟨if (s.cell key).2 = i then { c with content } else c, ?_, ?_⟩
  · simp [Store.write, List.getElem?_modify, getElem?_cells_cell hc]
  · split <;> exact hended

theorem ended_cell_occur {s : Store} {i : Nat} {c : Cell} (hc : s.cells[i]? = some c)
    (hended : c.ended = true) (e : Event) :
    ∃ c', (s.occur e).cells[i]? = some c' ∧ c'.ended = true := by
  have hsame {s' : Store} (h : s'.cells = s.cells) : ∃ c', s'.cells[i]? = some c' ∧ c'.ended = true :=
    ⟨c, h ▸ hc, hended⟩
  cases e with
  | set key data => exact ended_cell_write hc hended key _
  | setWithVersion key version data => exact ended_cell_write hc hended key _
  | delete key => exact ended_cell_write hc hended key _
  | closeKey key =>
    change ∃ c', (s.closeKey key).cells[i]? = some c' ∧ c'.ended = true
    unfold closeKey
    split
    · exact hsame rfl
    next j _ =>
      refine ⟨if j = i then { c with ended := true } else c, ?_, ?_⟩
      · simp [List.getElem?_modify, hc]
      · split
        · rfl
        · exact hended
  | watch key => exact ⟨c, getElem?_cells_cell hc, hended⟩
  | look w => exact hsame (cells_look w s).2
  | wait w => exact hsame (cells_wait w s).2
  | resume waiter => exact hsame (cells_resume waiter s).2
  | closeWatch w | dropWatch w | leave waiter => exact hsame rfl

theorem Ended.occur {w : Nat} {s : Store} (h : s.Ended w) (e : Event) : (s.occur e).Ended w := by
  obtain ⟨x, c, hx, hc, hended⟩ := h
  obtain ⟨x', hx', hcell⟩ := stays_occur s e w x hx
  obtain ⟨c', hc', hended'⟩ := ended_cell_occur hc hended e
  exact ⟨x', c', hx', hcell ▸ hc', hended'⟩

end NamespaceTopology.Store
