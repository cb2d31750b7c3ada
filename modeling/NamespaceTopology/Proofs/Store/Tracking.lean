import NamespaceTopology.Proofs.Node.Events

set_option autoImplicit false

/-!
A watch keeps track of its key, whatever happens to the store. As long as nobody takes its signal, what
was known of the content when the last signal was taken stays true until the next one is due.
-/
namespace NamespaceTopology.Store

/-- A watch that nobody waits on follows a key: it is on the key's cell until that cell ends, and unless
a signal is due, `P` holds of the content. -/
def Tracks (w : Nat) (key : String) (P : Option Value → Prop) (s : Store) : Prop :=
  ∃ x c, s.watches[w]? = some x ∧ s.cells[x.cell]? = some c ∧ x.queue = [] ∧
    (c.ended = true ∨ s.cell? key = some x.cell) ∧ (x.unseen = false → P c.content)

def Bounded (s : Store) : Prop := ∀ p ∈ s.keys, p.2 < s.cells.length

theorem Tracks.mono {w : Nat} {key : String} {P Q : Option Value → Prop} {s : Store}
    (h : s.Tracks w key P) (hPQ : ∀ content, P content → Q content) : s.Tracks w key Q := by
  obtain ⟨x, c, hx, hc, hqueue, hcell, hP⟩ := h
  exact ⟨x, c, hx, hc, hqueue, hcell, fun hseen => hPQ _ (hP hseen)⟩

theorem Tracks.lt {w : Nat} {key : String} {P : Option Value → Prop} {s : Store}
    (h : s.Tracks w key P) : w < s.watches.length := by
  obtain ⟨x, _, hx, _⟩ := h
  exact (List.getElem?_eq_some_iff.mp hx).1

/-- What is known of the content of a key while one who waits on the watch would go on waiting. -/
theorem Tracks.get_of_waiting {w : Nat} {key : String} {P : Option Value → Prop} {s : Store}
    (h : s.Tracks w key P) (hwaiting : s.peek w = .waiting) : P (s.get key) := by
  obtain ⟨x, c, hx, hc, _, hcell, hP⟩ := h
  simp only [peek, hx, hc, Watch.signal] at hwaiting
  split at hwaiting
  · cases hwaiting
  · split at hwaiting
    · cases hwaiting
    next hseen =>
      split at hwaiting
      · cases hwaiting
      next hgoes =>
        have hkey : s.cell? key = some x.cell := hcell.resolve_left hgoes
        have hget : s.get key = c.content := by
          simp [get, hkey, contentAt, hc]
        rw [hget]
        exact hP (by simpa using hseen)

/-! ### Cells -/

theorem Bounded.cell?_lt {s : Store} (hs : s.Bounded) {key : String} {c : Nat}
    (h : s.cell? key = some c) : c < s.cells.length := by
  obtain ⟨before, rest, hkeys, _⟩ := List.lookup_eq_some_iff.mp h
  refine hs (key, c) ?_
  rw [hkeys]
  exact List.mem_append_right _ List.mem_cons_self

theorem Bounded.cell {s : Store} (hs : s.Bounded) (key : String) : (s.cell key).1.Bounded := by
  unfold Store.cell
  split
  · exact hs
  · intro p hp
    simp only [List.length_append, List.length_singleton]
    rcases List.mem_cons.mp hp with rfl | hold
    · exact Nat.lt_succ_self _
    · exact Nat.lt_succ_of_lt (hs p hold)

theorem Bounded.cell_lt {s : Store} (hs : s.Bounded) (key : String) :
    (s.cell key).2 < (s.cell key).1.cells.length :=
  (hs.cell key).cell?_lt (cell?_cell key s)

theorem watches_cell (key : String) (s : Store) : (s.cell key).1.watches = s.watches := by
  unfold cell
  split <;> rfl

/-- A cell stays as it is when a key gets its cell. -/
theorem getElem?_cells_cell {key : String} {s : Store} {i : Nat} {c : Cell}
    (h : s.cells[i]? = some c) : (s.cell key).1.cells[i]? = some c := by
  unfold cell
  split
  · exact h
  · have hlt : i < s.cells.length := (List.getElem?_eq_some_iff.mp h).1
    simp only [List.getElem?_append_left hlt, h]

theorem cell?_cell_of_some {key key' : String} {s : Store} {c : Nat} (h : s.cell? key = some c) :
    (s.cell key').1.cell? key = some c := by
  unfold cell
  split
  · exact h
  next hnone =>
    have hne : (key == key') = false := by
      rw [beq_eq_false_iff_ne]
      rintro rfl
      rw [hnone] at h
      cases h
    simp only [cell?, List.lookup_cons, hne]
    exact h

theorem Tracks.cell {w : Nat} {key : String} {P : Option Value → Prop} {s : Store}
    (h : s.Tracks w key P) (key' : String) : (s.cell key').1.Tracks w key P := by
  obtain ⟨x, c, hx, hc, hqueue, hcell, hP⟩ := h
  refine ⟨x, c, ?_, getElem?_cells_cell hc, hqueue, hcell.imp_right cell?_cell_of_some, hP⟩
  rw [watches_cell]
  exact hx

/-! ### Writing and closing keys -/

theorem Tracks.write {w : Nat} {key : String} {P : Option Value → Prop} {s : Store}
    (h : s.Tracks w key P) (key' : String) (content : Option Value) :
    (s.write key' content).Tracks w key P := by
  obtain ⟨x, c, hx, hc, hqueue, hcell, hP⟩ := h.cell key'
  unfold Store.write
  by_cases hsame : x.cell = (s.cell key').2
  · -- The watch is signalled, so nothing has to be known of the new content.
    refine ⟨{ x with unseen := true }, { c with content }, ?_, ?_, hqueue, hcell, ?_⟩
    · simp [hx, hsame]
    · simp only [← hsame, List.getElem?_modify_eq, hc]
      rfl
    · intro hseen
      cases hseen
  · refine ⟨x, c, ?_, ?_, hqueue, hcell, hP⟩
    · simp [hx, hsame]
    · rw [List.getElem?_modify_ne _ _ (Ne.symm hsame), hc]

theorem Bounded.write {s : Store} (hs : s.Bounded) (key : String) (content : Option Value) :
    (s.write key content).Bounded := by
  intro p hp
  have hlt := hs.cell key p hp
  simpa [Store.write] using hlt

/-- Other keys keep their cells when a key is forgotten. -/
theorem lookup_filter_ne {α : Type} {key key' : String} (hne : key ≠ key')
    (keys : List (String × α)) :
    (keys.filter fun k => k.1 ≠ key').lookup key = keys.lookup key := by
  induction keys with
  | nil => rfl
  | cons k keys ih =>
    obtain ⟨name, c⟩ := k
    by_cases hname : name = key'
    · have hother : (key == name) = false := by
        rw [hname]
        exact beq_eq_false_iff_ne.mpr hne
      rw [List.filter_cons_of_neg (by simp [hname]), List.lookup_cons, hother, ih]
    · rw [List.filter_cons_of_pos (by simp [hname]), List.lookup_cons, List.lookup_cons, ih]

theorem Tracks.closeKey {w : Nat} {key : String} {P : Option Value → Prop} {s : Store}
    (h : s.Tracks w key P) (key' : String) : (s.closeKey key').Tracks w key P := by
  unfold Store.closeKey
  cases hkey : s.cell? key' with
  | none => exact h
  | some i =>
    obtain ⟨x, c, hx, hc, hqueue, hcell, hP⟩ := h
    by_cases hsame : x.cell = i
    · refine ⟨x, { c with ended := true }, hx, ?_, hqueue, Or.inl rfl, hP⟩
      simp only [← hsame, List.getElem?_modify_eq, hc]
      rfl
    · refine ⟨x, c, hx, ?_, hqueue, ?_, hP⟩
      · rw [List.getElem?_modify_ne _ _ (Ne.symm hsame), hc]
      · refine hcell.imp_right fun hcell => ?_
        have hne : key ≠ key' := by
          rintro rfl
          rw [hkey] at hcell
          exact hsame (Option.some.inj hcell).symm
        rw [cell?, lookup_filter_ne hne]
        exact hcell

theorem Bounded.closeKey {s : Store} (hs : s.Bounded) (key : String) : (s.closeKey key).Bounded := by
  unfold Store.closeKey
  split
  · exact hs
  · intro p hp
    rw [List.length_modify]
    exact hs p (List.mem_filter.mp hp).1

/-! ### Watches -/

theorem Tracks.watch {w : Nat} {key : String} {P : Option Value → Prop} {s : Store}
    (h : s.Tracks w key P) (key' : String) : (s.watch key').1.Tracks w key P := by
  obtain ⟨x, c, hx, hc, hqueue, hcell, hP⟩ := h.cell key'
  refine ⟨x, c, ?_, hc, hqueue, hcell, hP⟩
  have hlt := (List.getElem?_eq_some_iff.mp hx).1
  simp only [Store.watch, List.getElem?_append_left hlt, hx]

theorem Bounded.watch {s : Store} (hs : s.Bounded) (key : String) : (s.watch key).1.Bounded :=
  hs.cell key

theorem watch_snd (key : String) (s : Store) : (s.watch key).2 = s.watches.length :=
  congrArg List.length (watches_cell key s)

/-- A new watch follows its key. -/
theorem tracks_watch {s : Store} (hs : s.Bounded) (key : String) :
    (s.watch key).1.Tracks (s.watch key).2 key fun _ => True := by
  have hlt := hs.cell_lt key
  let x : Watch := ⟨(s.cell key).2, ((s.cell key).1.contentAt (s.cell key).2).isSome, false, false, []⟩
  refine ⟨x, (s.cell key).1.cells[(s.cell key).2], ?_, List.getElem?_eq_getElem hlt, rfl,
    Or.inr (cell?_cell key s), fun _ => trivial⟩
  simp [Store.watch, watches_cell, x]

theorem Tracks.modifyWatch {w : Nat} {key : String} {P : Option Value → Prop} {s : Store}
    (h : s.Tracks w key P) {i : Nat} {f : Watch → Watch} (hf : i = w → ∀ x, (f x).cell = x.cell ∧
      (f x).queue = x.queue ∧ ((f x).unseen = false → x.unseen = false ∨ ∀ content, P content)) :
    Tracks w key P { s with watches := s.watches.modify i f } := by
  obtain ⟨x, c, hx, hc, hqueue, hcell, hP⟩ := h
  by_cases hi : i = w
  · obtain ⟨hfcell, hfqueue, hfseen⟩ := hf hi x
    refine ⟨f x, c, ?_, ?_, hfqueue.trans hqueue, ?_, ?_⟩
    · simp [hi, hx]
    · rw [hfcell]
      exact hc
    · rw [hfcell]
      exact hcell
    · intro hseen
      exact (hfseen hseen).elim hP fun hall => hall _
  · refine ⟨x, c, ?_, hc, hqueue, hcell, hP⟩
    rw [List.getElem?_modify_ne _ _ hi, hx]

theorem Tracks.closeWatch {w : Nat} {key : String} {P : Option Value → Prop} {s : Store}
    (h : s.Tracks w key P) (i : Nat) : (s.closeWatch i).Tracks w key P :=
  h.modifyWatch fun _ _ => ⟨rfl, rfl, Or.inl⟩

theorem Tracks.dropWatch {w : Nat} {key : String} {P : Option Value → Prop} {s : Store}
    (h : s.Tracks w key P) (i : Nat) : (s.dropWatch i).Tracks w key P :=
  h.modifyWatch fun _ _ => ⟨rfl, rfl, Or.inl⟩

/-! ### Signals -/

/-- Somebody is served, on another watch or where nothing is known. -/
theorem Tracks.serve {w : Nat} {key : String} {P : Option Value → Prop} {s : Store}
    (h : s.Tracks w key P) {i : Nat} (hi : i ≠ w ∨ ∀ content, P content) :
    (s.serve i).1.Tracks w key P := by
  unfold Store.serve
  split
  · refine h.modifyWatch fun hsame _ => ⟨rfl, rfl, fun _ => Or.inr ?_⟩
    exact hi.resolve_left fun hne => hne hsame
  · exact h

theorem Tracks.look {w : Nat} {key : String} {P : Option Value → Prop} {s : Store}
    (h : s.Tracks w key P) {i : Nat} (hi : i ≠ w ∨ ∀ content, P content) :
    (s.look i).1.Tracks w key P := by
  unfold Store.look
  split
  · exact h
  · split
    · exact h.serve hi
    · exact h

theorem Tracks.leave {w : Nat} {key : String} {P : Option Value → Prop} {s : Store}
    (h : s.Tracks w key P) (waiter : Nat) : (s.leave waiter).Tracks w key P := by
  obtain ⟨x, c, hx, hc, hqueue, hcell, hP⟩ := h
  refine ⟨{ x with queue := x.queue.filter (· ≠ waiter) }, c, ?_, hc, ?_, hcell, hP⟩
  · simp [Store.leave, hx]
  · simp [hqueue]

/-- Nobody waits on the watch, so whoever goes on waiting waits on another one. -/
theorem Tracks.resume {w : Nat} {key : String} {P : Option Value → Prop} {s : Store}
    (h : s.Tracks w key P) (waiter : Nat) : (s.resume waiter).1.Tracks w key P := by
  unfold Store.resume
  cases hon : s.waitsOn waiter with
  | none => exact h
  | some i =>
    have hi : i ≠ w := by
      rintro rfl
      obtain ⟨hlt, hwaits, _⟩ := List.findIdx?_eq_some_iff_getElem.mp hon
      obtain ⟨x, c, hx, hc, hqueue, _⟩ := h
      rw [List.getElem?_eq_getElem hlt] at hx
      rw [Option.some.inj hx, hqueue] at hwaits
      cases hwaits
    have hserved : (s.serve i).1.Tracks w key P := h.serve (Or.inl hi)
    simp only
    split
    · rcases hs : s.serve i with ⟨s', signal⟩
      rw [hs] at hserved
      cases signal with
      | waiting => exact hserved
      | changed | ended => exact hserved.leave waiter
    · exact h

theorem Tracks.wait {w : Nat} {key : String} {P : Option Value → Prop} {s : Store}
    (h : s.Tracks w key P) {i : Nat} (hi : i ≠ w) : (s.wait i).1.Tracks w key P := by
  have hnext : Tracks w key P { s with nextWaiter := s.nextWaiter + 1 } := h
  unfold Store.wait
  simp only
  split
  · exact hnext
  · exact (hnext.modifyWatch fun hsame => absurd hsame hi).resume s.nextWaiter

/-- Signals and those who wait for them are no matter of keys and cells. -/
theorem Bounded.congr {s s' : Store} (hs : s.Bounded) (h : s'.keys = s.keys ∧ s'.cells = s.cells) :
    s'.Bounded := by
  intro p hp
  rw [h.2]
  exact hs p (h.1 ▸ hp)

theorem cells_serve (w : Nat) (s : Store) :
    (s.serve w).1.keys = s.keys ∧ (s.serve w).1.cells = s.cells := by
  unfold serve
  split <;> exact ⟨rfl, rfl⟩

theorem cells_look (w : Nat) (s : Store) :
    (s.look w).1.keys = s.keys ∧ (s.look w).1.cells = s.cells := by
  unfold look
  split
  · exact ⟨rfl, rfl⟩
  · split
    · exact cells_serve w s
    · exact ⟨rfl, rfl⟩

theorem cells_resume (waiter : Nat) (s : Store) :
    (s.resume waiter).1.keys = s.keys ∧ (s.resume waiter).1.cells = s.cells := by
  unfold resume
  split
  · exact ⟨rfl, rfl⟩
  next w _ =>
    split
    · have hserve := cells_serve w s
      rcases hs : s.serve w with ⟨s', signal⟩
      rw [hs] at hserve
      cases signal <;> exact hserve
    · exact ⟨rfl, rfl⟩

theorem cells_wait (w : Nat) (s : Store) :
    (s.wait w).1.keys = s.keys ∧ (s.wait w).1.cells = s.cells := by
  unfold wait
  simp only
  split
  · exact ⟨rfl, rfl⟩
  · exact cells_resume _ _

/-! ### Every event -/

def Event.taken? : Event → Option Nat
  | .look w => some w
  | .wait w => some w
  | _ => none

theorem Tracks.occur {w : Nat} {key : String} {P : Option Value → Prop} {s : Store}
    (h : s.Tracks w key P) {e : Event} (he : e.taken? ≠ some w) : (s.occur e).Tracks w key P := by
  cases e with
  | set key' data => exact h.write key' _
  | setWithVersion key' version data => exact h.write key' _
  | delete key' => exact h.write key' _
  | closeKey key' => exact h.closeKey key'
  | watch key' => exact h.watch key'
  | look i => exact h.look (Or.inl fun hi => he (congrArg some hi))
  | closeWatch i => exact h.closeWatch i
  | dropWatch i => exact h.dropWatch i
  | wait i => exact h.wait fun hi => he (congrArg some hi)
  | resume waiter => exact h.resume waiter
  | leave waiter => exact h.leave waiter

theorem Bounded.occur {s : Store} (hs : s.Bounded) (e : Event) : (s.occur e).Bounded := by
  cases e with
  | set key data => exact hs.write key _
  | setWithVersion key version data => exact hs.write key _
  | delete key => exact hs.write key _
  | closeKey key => exact hs.closeKey key
  | watch key => exact hs.watch key
  | look w => exact hs.congr (cells_look w s)
  | closeWatch w => exact hs
  | dropWatch w => exact hs
  | wait w => exact hs.congr (cells_wait w s)
  | resume waiter => exact hs.congr (cells_resume waiter s)
  | leave waiter => exact hs

/-- What is known of the content that is read on a watch is known from then on. -/
theorem Tracks.of_content {w : Nat} {key : String} {P Q : Option Value → Prop} {s : Store}
    (h : s.Tracks w key Q) (hP : P (s.contentOf w)) : s.Tracks w key P := by
  obtain ⟨x, c, hx, hc, hqueue, hcell, _⟩ := h
  refine ⟨x, c, hx, hc, hqueue, hcell, fun _ => ?_⟩
  have hcontent : s.contentOf w = c.content := by
    simp [contentOf, hx, contentAt, hc]
  rw [← hcontent]
  exact hP

end NamespaceTopology.Store
