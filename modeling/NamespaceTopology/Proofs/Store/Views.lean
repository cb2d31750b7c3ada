import NamespaceTopology.Proofs.Store.Watchers

set_option autoImplicit false

/-!
What somebody meets who has a watch. An event changes it only if it writes to the watch's cell, takes the
signal, closes the watch or ends the cell; what happens to other keys and other watches does not matter.
-/
namespace NamespaceTopology.Store

/-- What a watch shows: what is read on it, whether a signal is due, whether it is closed, and whether
its cell has ended. -/
structure View where
  content : Option Value
  due : Bool
  closed : Bool
  ended : Bool

def View.signal (v : View) : Signal :=
  if v.closed then .ended else if v.due then .changed else if v.ended then .ended else .waiting

/-- A watch that was started on a key is on the key's cell until that cell ends, and shows this view. -/
def Shows (w : Nat) (key : String) (v : View) (s : Store) : Prop :=
  ∃ x c, s.watches[w]? = some x ∧ s.cells[x.cell]? = some c ∧
    v = ⟨c.content, x.unseen, x.closed, c.ended⟩ ∧ (v.ended = true ∨ s.cell? key = some x.cell)

def Event.hits (key : String) : Event → Bool
  | .set k _ | .setWithVersion k _ _ | .delete k => k = key
  | _ => false

def Event.ends (key : String) : Event → Bool
  | .closeKey k => k = key
  | _ => false

def Event.closes (w : Nat) : Event → Bool
  | .closeWatch i => i = w
  | _ => false

/-- Whether one who asks the watch now is served at once. Nobody is served before those who wait. -/
def isFree (w : Nat) (s : Store) : Bool := s.isClosed w || (s.queueOf w).isEmpty

/-- What is told to one who asks the watch for a signal, be it by looking, by starting to wait or by going
on. One who stays behind another is told nothing. -/
def answer? (w : Nat) (s : Store) : Event → Option Signal
  | .look i => if i = w ∧ s.isFree w = true then some (s.look w).2 else none
  | .wait i => if i = w ∧ s.isFree w = true then some (s.wait w).2.2 else none
  | .resume waiter =>
    if s.waitsOn waiter = some w ∧ (s.queueOf w).head? = some waiter then some (s.resume waiter).2
    else none
  | _ => none

def takes (w : Nat) (s : Store) (e : Event) : Bool := s.answer? w e = some .changed

def View.after (w : Nat) (key : String) (s : Store) (v : View) (e : Event) : View where
  content := if v.ended || e.ends key then v.content else (s.occur e).get key
  due := (e.hits key && !v.ended) || (v.due && !s.takes w e)
  closed := v.closed || e.closes w
  ended := v.ended || e.ends key

/-! ### Reading a view -/

section Shown

variable {w : Nat} {key : String} {v : View} {s : Store}

theorem Shows.peek_eq (h : s.Shows w key v) : s.peek w = v.signal := by
  obtain ⟨x, c, hx, hc, rfl, _⟩ := h
  simp only [peek, hx, hc]
  rfl

theorem Shows.contentOf_eq (h : s.Shows w key v) : s.contentOf w = v.content := by
  obtain ⟨x, c, hx, hc, rfl, _⟩ := h
  simp [contentOf, hx, contentAt, hc]

theorem Shows.isClosed_eq (h : s.Shows w key v) : s.isClosed w = v.closed := by
  obtain ⟨x, c, hx, _, rfl, _⟩ := h
  simp [isClosed, hx]

theorem Shows.get_eq (h : s.Shows w key v) (hlive : v.ended = false) : s.get key = v.content := by
  obtain ⟨x, c, _, hc, rfl, hcell⟩ := h
  have hkey : s.cell? key = some x.cell := hcell.resolve_left (ne_true_of_eq_false hlive)
  simp [get, hkey, contentAt, hc]

theorem View.signal_of_due_eq_false (hdue : v.due = false) : v.signal ≠ .changed := by
  unfold signal
  rw [hdue]
  repeat' split
  all_goals simp_all

/-! ### Keys and cells -/

theorem Shows.cell (h : s.Shows w key v) (key' : String) : (s.cell key').1.Shows w key v := by
  obtain ⟨x, c, hx, hc, hv, hcell⟩ := h
  refine ⟨x, c, ?_, getElem?_cells_cell hc, hv, hcell.imp_right cell?_cell_of_some⟩
  rw [watches_cell]
  exact hx

/-- An ended cell is no key's cell, and a cell that has not ended is that of one key only. -/
theorem Shows.cell_eq_iff (h : s.Shows w key v) (hs : s.Sound) {x : Watch}
    (hx : s.watches[w]? = some x) (key' : String) :
    (s.cell key').2 = x.cell ↔ key' = key ∧ v.ended = false := by
  obtain ⟨y, c, hy, hc, rfl, hcell⟩ := h
  obtain rfl := Option.some.inj (hx.symm.trans hy)
  constructor
  · intro hsame
    have hkey' : (s.cell key').1.cell? key' = some x.cell := hsame ▸ cell?_cell key' s
    have hlive : c.ended = false := (hs.cell key').live _ _ _ hkey' (getElem?_cells_cell hc)
    have hkey := hcell.resolve_left (ne_true_of_eq_false hlive)
    exact ⟨(hs.cell key').distinct _ _ _ hkey' (cell?_cell_of_some hkey), hlive⟩
  · rintro ⟨rfl, hlive⟩
    rw [cell_of_some (hcell.resolve_left (ne_true_of_eq_false hlive))]

theorem Shows.write (h : s.Shows w key v) (hs : s.Sound) (key' : String) (content : Option Value) :
    (s.write key' content).Shows w key
      (if key' = key ∧ v.ended = false then { v with content, due := true } else v) := by
  obtain ⟨x, c, hx, hc, hv, hcell⟩ := h.cell key'
  have hiff := h.cell_eq_iff hs (watches_cell key' s ▸ hx) key'
  unfold Store.write
  by_cases hsame : x.cell = (s.cell key').2
  · rw [if_pos (hiff.mp hsame.symm)]
    refine ⟨{ x with unseen := true }, { c with content }, ?_, ?_, ?_, hcell⟩
    · simp [hx, hsame]
    · simp only [← hsame, List.getElem?_modify_eq, hc]
      rfl
    · rw [hv]
  · rw [if_neg fun hkey => hsame (hiff.mpr hkey).symm]
    refine ⟨x, c, ?_, ?_, hv, hcell⟩
    · simp [hx, hsame]
    · rw [List.getElem?_modify_ne _ _ (Ne.symm hsame), hc]

theorem Shows.closeKey (h : s.Shows w key v) (hs : s.Sound) (key' : String) :
    (s.closeKey key').Shows w key { v with ended := v.ended || key' = key } := by
  obtain ⟨x, c, hx, hc, hv, hcell⟩ := id h
  have hiff := h.cell_eq_iff hs hx key'
  unfold Store.closeKey
  cases hkey : s.cell? key' with
  | none =>
    have hended : (v.ended || decide (key' = key)) = v.ended := by
      rcases hcell with hended | hcell
      · rw [hended, Bool.true_or]
      · have hne : key' ≠ key := by
          rintro rfl
          rw [hkey] at hcell
          cases hcell
        simp [hne]
    rw [hended]
    exact h
  | some i =>
    rw [cell_of_some hkey] at hiff
    by_cases hsame : i = x.cell
    · obtain ⟨rfl, _⟩ := hiff.mp hsame
      refine ⟨x, { c with ended := true }, hx, ?_, ?_, Or.inl ?_⟩
      · simp only [hsame, List.getElem?_modify_eq, hc]
        rfl
      · simp [hv]
      · simp
    · have hended : (v.ended || decide (key' = key)) = v.ended := by
        by_cases hkey' : key' = key
        · have hended : v.ended = true := by
            simpa [hkey'] using fun hlive => hsame (hiff.mpr ⟨hkey', hlive⟩)
          rw [hended, Bool.true_or]
        · simp [hkey']
      rw [hended]
      refine ⟨x, c, hx, ?_, hv, hcell.imp_right fun hcell => ?_⟩
      · rw [List.getElem?_modify_ne _ _ hsame, hc]
      · have hne : key ≠ key' := by
          rintro rfl
          rw [hkey] at hcell
          exact hsame (Option.some.inj hcell)
        rw [cell?, lookup_filter_ne hne]
        exact hcell

theorem Shows.watch (h : s.Shows w key v) (key' : String) : (s.watch key').1.Shows w key v := by
  obtain ⟨x, c, hx, hc, hv, hcell⟩ := h.cell key'
  refine ⟨x, c, ?_, hc, hv, hcell⟩
  have hlt := (List.getElem?_eq_some_iff.mp hx).1
  simp only [Store.watch, List.getElem?_append_left hlt, hx]

/-- A new watch shows what its key holds, and a signal is due if that is a value. -/
theorem shows_watch (hs : s.Sound) (key : String) :
    (s.watch key).1.Shows (s.watch key).2 key
      ⟨s.get key, (s.get key).isSome, false, false⟩ := by
  have hlt := hs.bounded.cell_lt key
  have hcell := cell?_cell key s
  have hlive := (hs.cell key).live key _ _ hcell (List.getElem?_eq_getElem hlt)
  have hcontent : s.get key = (s.cell key).1.cells[(s.cell key).2].content := by
    rw [← hs.get_cell key key, get, hcell]
    simp [contentAt, hlt]
  refine ⟨⟨(s.cell key).2, (s.get key).isSome, false, false, []⟩,
    (s.cell key).1.cells[(s.cell key).2], ?_, List.getElem?_eq_getElem hlt, ?_, Or.inr hcell⟩
  · simp [Store.watch, watches_cell, contentAt, hlt, hcontent]
  · rw [hlive, hcontent]

/-! ### Watches -/

theorem Shows.modify (h : s.Shows w key v) (i : Nat) {f : Watch → Watch} (g : View → View)
    (hcell : ∀ x, (f x).cell = x.cell)
    (hview : ∀ x (c : Cell), (⟨c.content, (f x).unseen, (f x).closed, c.ended⟩ : View) =
      g ⟨c.content, x.unseen, x.closed, c.ended⟩) :
    Shows w key (if i = w then g v else v) { s with watches := s.watches.modify i f } := by
  obtain ⟨x, c, hx, hc, rfl, hkey⟩ := h
  by_cases hi : i = w
  · refine ⟨f x, c, by simp [hi, hx], by rw [hcell]; exact hc, ?_, ?_⟩
    · rw [if_pos hi, hview]
    · rw [if_pos hi, hcell, ← hview]
      exact hkey
  · rw [if_neg hi]
    refine ⟨x, c, ?_, hc, rfl, hkey⟩
    rw [List.getElem?_modify_ne _ _ hi, hx]

theorem Shows.closeWatch (h : s.Shows w key v) (i : Nat) :
    (s.closeWatch i).Shows w key { v with closed := v.closed || i = w } := by
  have hclose : (s.closeWatch i).Shows w key (if i = w then { v with closed := true } else v) :=
    h.modify i (fun v => { v with closed := true }) (fun _ => rfl) fun _ _ => rfl
  by_cases hi : i = w
  · rw [if_pos hi] at hclose
    simpa only [hi, decide_true, Bool.or_true] using hclose
  · rw [if_neg hi] at hclose
    simpa only [hi, decide_false, Bool.or_false] using hclose

/-- An operation that leaves views alone. -/
theorem Shows.modify_quiet (h : s.Shows w key v) (i : Nat) {f : Watch → Watch}
    (hf : ∀ x, (f x).cell = x.cell ∧ (f x).unseen = x.unseen ∧ (f x).closed = x.closed) :
    Shows w key v { s with watches := s.watches.modify i f } := by
  have hsame := h.modify i (f := f) id (fun x => (hf x).1) fun x c => by
    rw [(hf x).2.1, (hf x).2.2]
    rfl
  simpa using hsame

theorem Shows.serve_other (h : s.Shows w key v) {i : Nat} (hi : i ≠ w) :
    (s.serve i).1.Shows w key v := by
  unfold Store.serve
  split
  · have hserve := h.modify i (f := fun x => { x with unseen := false })
      (fun v => { v with due := false }) (fun _ => rfl) fun _ _ => rfl
    rwa [if_neg hi] at hserve
  · exact h

theorem Shows.serve_self (h : s.Shows w key v) : (s.serve w).1.Shows w key
    { v with due := v.due && !decide ((s.serve w).2 = .changed) } := by
  unfold Store.serve
  split
  · have hserve := h.modify w (f := fun x => { x with unseen := false })
      (fun v => { v with due := false }) (fun _ => rfl) fun _ _ => rfl
    simpa using hserve
  next hsignal =>
    rw [decide_eq_false hsignal]
    simpa using h

theorem serve_snd (w : Nat) (s : Store) : (s.serve w).2 = s.peek w := by
  unfold Store.serve
  split
  next h => exact h.symm
  · rfl

theorem Shows.leave (h : s.Shows w key v) (waiter : Nat) : (s.leave waiter).Shows w key v := by
  obtain ⟨x, c, hx, hc, hv, hcell⟩ := h
  exact ⟨{ x with queue := x.queue.filter (· ≠ waiter) }, c, by simp [Store.leave, hx], hc, hv, hcell⟩

/-! ### Those who wait -/

def queues (s : Store) : List (List Nat) := s.watches.map Watch.queue

def Numbered (s : Store) : Prop := ∀ q ∈ s.queues, ∀ waiter ∈ q, waiter < s.nextWaiter

theorem numbered_empty : empty.Numbered := fun _ hq => absurd hq List.not_mem_nil

theorem Numbered.of_queues {s s' : Store} (hs : s.Numbered)
    (hqueues : ∀ q ∈ s'.queues, q = [] ∨ ∃ q' ∈ s.queues, ∀ waiter ∈ q, waiter ∈ q')
    (hnext : s.nextWaiter ≤ s'.nextWaiter) : s'.Numbered := by
  intro q hq waiter hwaiter
  rcases hqueues q hq with rfl | ⟨q', hq', hsub⟩
  · cases hwaiter
  · exact Nat.lt_of_lt_of_le (hs q' hq' waiter (hsub waiter hwaiter)) hnext

theorem Numbered.same {s s' : Store} (hs : s.Numbered) (hqueues : s'.queues = s.queues)
    (hnext : s.nextWaiter ≤ s'.nextWaiter) : s'.Numbered :=
  hs.of_queues (fun q hq => Or.inr ⟨q, hqueues ▸ hq, fun _ h => h⟩) hnext

theorem Numbered.leave {s : Store} (hs : s.Numbered) (waiter : Nat) : (s.leave waiter).Numbered := by
  refine hs.of_queues (fun q hq => Or.inr ?_) (Nat.le_refl _)
  simp only [queues, Store.leave, List.map_map, List.mem_map] at hq
  obtain ⟨x, hx, rfl⟩ := hq
  exact ⟨x.queue, List.mem_map_of_mem hx, fun i hi => (List.mem_filter.mp hi).1⟩

theorem Numbered.serve {s : Store} (hs : s.Numbered) (i : Nat) : (s.serve i).1.Numbered := by
  unfold Store.serve
  split
  · refine hs.same (map_modify_of_eq ?_ i s.watches) (Nat.le_refl _)
    intro x
    rfl
  · exact hs

theorem Numbered.resume {s : Store} (hs : s.Numbered) (waiter : Nat) :
    (s.resume waiter).1.Numbered := by
  unfold Store.resume
  split
  · exact hs
  next i _ =>
    split
    · have hserve := hs.serve i
      rcases hr : s.serve i with ⟨s', signal⟩
      rw [hr] at hserve
      cases signal with
      | waiting => exact hserve
      | changed | ended => exact hserve.leave waiter
    · exact hs

/-- The store after somebody has come to wait on a watch, before he is served. -/
def enqueue (w : Nat) (s : Store) : Store :=
  { s with
    nextWaiter := s.nextWaiter + 1
    watches := s.watches.modify w fun x => { x with queue := x.queue ++ [s.nextWaiter] } }

theorem Numbered.enqueue {s : Store} (hs : s.Numbered) (w : Nat) : (s.enqueue w).Numbered := by
  intro q hq waiter hwaiter
  obtain ⟨x, hx, rfl⟩ := List.mem_map.mp hq
  obtain ⟨i, hi⟩ := List.getElem?_of_mem hx
  simp only [Store.enqueue, List.getElem?_modify] at hi
  obtain ⟨y, hy, rfl⟩ := Option.map_eq_some_iff.mp hi
  have hold (hwaiter : waiter ∈ y.queue) : waiter < s.nextWaiter + 1 :=
    Nat.lt_succ_of_lt (hs y.queue (List.mem_map_of_mem (List.mem_of_getElem? hy)) waiter hwaiter)
  split at hwaiter
  · rcases List.mem_append.mp hwaiter with hmem | hlast
    · exact hold hmem
    · obtain rfl := List.mem_singleton.mp hlast
      exact Nat.lt_succ_self _
  · exact hold hwaiter

theorem Shows.enqueue (h : s.Shows w key v) (i : Nat) : (s.enqueue i).Shows w key v := by
  have hnext : Shows w key v { s with nextWaiter := s.nextWaiter + 1 } := h
  exact hnext.modify_quiet i fun _ => ⟨rfl, rfl, rfl⟩

theorem Numbered.not_mem {s : Store} (hs : s.Numbered) {x : Watch} (hx : x ∈ s.watches) :
    s.nextWaiter ∉ x.queue :=
  fun hmem => absurd (hs x.queue (List.mem_map_of_mem hx) _ hmem) (Nat.lt_irrefl _)

/-- Who has just come to wait on a watch waits on that watch and on no other one. -/
theorem Numbered.waitsOn_enqueue {s : Store} (hs : s.Numbered) (i : Nat) :
    (s.enqueue i).waitsOn s.nextWaiter = if i < s.watches.length then some i else none := by
  have hold (j : Nat) (hj : j ≠ i) (x : Watch) (hx : (s.enqueue i).watches[j]? = some x) :
      x.queue.contains s.nextWaiter = false := by
    simp only [Store.enqueue, List.getElem?_modify_ne _ _ (Ne.symm hj)] at hx
    simpa using hs.not_mem (List.mem_of_getElem? hx)
  by_cases hi : i < s.watches.length
  · rw [if_pos hi]
    have hlt : i < (s.enqueue i).watches.length := by simpa [Store.enqueue] using hi
    refine List.findIdx?_eq_some_iff_getElem.mpr ⟨hlt, ?_, fun j hj => ?_⟩
    · simp [Store.enqueue]
    · have hj' : j < (s.enqueue i).watches.length := Nat.lt_trans hj hlt
      rw [hold j (Nat.ne_of_lt hj) _ (List.getElem?_eq_getElem hj')]
      simp
  · rw [if_neg hi]
    refine List.findIdx?_eq_none_iff.mpr fun x hx => ?_
    obtain ⟨j, hj⟩ := List.getElem?_of_mem hx
    have hlt : j < s.watches.length := by
      simpa [Store.enqueue] using (List.getElem?_eq_some_iff.mp hj).1
    exact hold j (fun hsame => hi (hsame ▸ hlt)) x hj

/-- One who goes on is served if he is the first on his watch, and else nothing happens. -/
theorem resume_cases (waiter : Nat) (s : Store) :
    ((s.resume waiter).1 = s ∧ ∀ w, s.answer? w (.resume waiter) = none) ∨
    ∃ i, s.waitsOn waiter = some i ∧ (s.queueOf i).head? = some waiter ∧
      (s.resume waiter).2 = (s.serve i).2 ∧
      ((s.resume waiter).1 = (s.serve i).1 ∨ (s.resume waiter).1 = (s.serve i).1.leave waiter) := by
  cases hon : s.waitsOn waiter with
  | none => exact Or.inl ⟨by simp [resume, hon], fun w => by simp [answer?, hon]⟩
  | some i =>
    by_cases hfirst : (s.queueOf i).head? = some waiter
    · refine Or.inr ⟨i, rfl, hfirst, ?_⟩
      simp only [resume, hon, hfirst, if_true]
      rcases s.serve i with ⟨s', signal⟩
      cases signal with
      | waiting => exact ⟨rfl, Or.inl rfl⟩
      | changed | ended => exact ⟨rfl, Or.inr rfl⟩
    · refine Or.inl ⟨by simp [resume, hon, hfirst], fun w => ?_⟩
      simp only [answer?, hon]
      refine if_neg ?_
      rintro ⟨hi, hhead⟩
      exact hfirst (Option.some.inj hi ▸ hhead)

theorem Shows.resume (h : s.Shows w key v) (waiter : Nat) : (s.resume waiter).1.Shows w key
    { v with due := v.due && !s.takes w (.resume waiter) } := by
  rcases resume_cases waiter s with ⟨hsame, hnone⟩ | ⟨i, hon, hfirst, hsignal, hstore⟩
  · rw [hsame, takes, hnone w]
    simpa using h
  · have hserve : (s.serve i).1.Shows w key
        { v with due := v.due && !s.takes w (.resume waiter) } := by
      by_cases hi : i = w
      · subst hi
        have hanswer : s.answer? i (.resume waiter) = some (s.serve i).2 := by
          rw [answer?, if_pos ⟨hon, hfirst⟩, hsignal]
        rw [takes, hanswer]
        simpa using h.serve_self
      · have hanswer : s.answer? w (.resume waiter) = none := by
          refine if_neg fun hw => hi ?_
          exact Option.some.inj (hon.symm.trans hw.1)
        rw [takes, hanswer]
        simpa using h.serve_other hi
    rcases hstore with hstore | hstore
    · rw [hstore]
      exact hserve
    · rw [hstore]
      exact hserve.leave waiter

theorem wait_of_open {i : Nat} {s : Store} (hopen : s.isClosed i = false) :
    (s.wait i).1 = ((s.enqueue i).resume s.nextWaiter).1 ∧
      (s.wait i).2.2 = ((s.enqueue i).resume s.nextWaiter).2 := by
  have hopen' : isClosed i { s with nextWaiter := s.nextWaiter + 1 } = false := hopen
  unfold wait
  simp only [hopen', Bool.false_eq_true, if_false]
  exact ⟨rfl, rfl⟩

theorem wait_of_closed {i : Nat} {s : Store} (hclosed : s.isClosed i = true) :
    s.wait i = ({ s with nextWaiter := s.nextWaiter + 1 }, s.nextWaiter, .ended) := by
  have hclosed' : isClosed i { s with nextWaiter := s.nextWaiter + 1 } = true := hclosed
  unfold wait
  simp only [hclosed', if_true]

/-- Who comes to wait on a watch that is open is told what he would be told if he went on. -/
theorem Shows.answer?_wait (h : s.Shows w key v) (hn : s.Numbered) {i : Nat}
    (hopen : s.isClosed i = false) :
    s.answer? w (.wait i) = (s.enqueue i).answer? w (.resume s.nextWaiter) := by
  have hw : w < s.watches.length := by
    obtain ⟨x, _, hx, _⟩ := h
    exact (List.getElem?_eq_some_iff.mp hx).1
  have hon := hn.waitsOn_enqueue i
  by_cases hi : i = w
  · subst hi
    rw [if_pos hw] at hon
    have hqueue : (s.enqueue i).queueOf i = s.queueOf i ++ [s.nextWaiter] := by
      simp [queueOf, Store.enqueue, List.getElem?_eq_getElem hw]
    have hfree : s.isFree i = true ↔ (s.queueOf i ++ [s.nextWaiter]).head? = some s.nextWaiter := by
      rw [isFree, hopen, Bool.false_or]
      cases hq : s.queueOf i with
      | nil => simp
      | cons first rest =>
        have hx : s.watches[i].queue = first :: rest := by
          simpa [queueOf, List.getElem?_eq_getElem hw] using hq
        have hne : first ≠ s.nextWaiter := by
          rintro rfl
          exact hn.not_mem (List.getElem_mem hw) (hx ▸ List.mem_cons_self)
        simp [hne]
    simp only [answer?, hon, hqueue, true_and, (wait_of_open hopen).2]
    by_cases hhead : (s.queueOf i ++ [s.nextWaiter]).head? = some s.nextWaiter
    · rw [if_pos (hfree.mpr hhead), if_pos hhead]
    · rw [if_neg fun hf => hhead (hfree.mp hf), if_neg hhead]
  · have hne : (s.enqueue i).waitsOn s.nextWaiter ≠ some w := by
      rw [hon]
      split
      · exact fun hsame => hi (Option.some.inj hsame)
      · exact nofun
    rw [answer?, answer?, if_neg fun hw => hi hw.1, if_neg fun hw => hne hw.1]

theorem Shows.wait (h : s.Shows w key v) (hn : s.Numbered) (i : Nat) :
    (s.wait i).1.Shows w key
      { v with due := v.due && !s.takes w (.wait i) } := by
  cases hi : s.isClosed i with
  | true =>
    have hanswer : s.takes w (.wait i) = false := by
      simp only [takes, answer?]
      split
      next hsame => simp [← hsame.1, wait_of_closed hi]
      · rfl
    rw [hanswer, wait_of_closed hi, Bool.not_false, Bool.and_true]
    exact h
  | false =>
    rw [(wait_of_open hi).1, takes, h.answer?_wait hn hi]
    exact (h.enqueue i).resume s.nextWaiter

theorem Shows.look (h : s.Shows w key v) (i : Nat) : (s.look i).1.Shows w key
    { v with due := v.due && !s.takes w (.look i) } := by
  by_cases hi : i = w
  · subst hi
    simp only [takes, answer?, true_and]
    unfold Store.look
    cases hclosed : s.isClosed i with
    | true => simpa [isFree, hclosed] using h
    | false =>
      cases hqueue : (s.queueOf i).isEmpty with
      | true => simpa [isFree, hclosed, hqueue] using h.serve_self
      | false => simpa [isFree, hclosed, hqueue] using h
  · have hanswer : s.answer? w (.look i) = none := if_neg fun hw => hi hw.1
    rw [takes, hanswer]
    unfold Store.look
    split
    · simpa using h
    · split
      · simpa using h.serve_other hi
      · simpa using h

/-! ### Every event -/

theorem Numbered.wait {s : Store} (hs : s.Numbered) (i : Nat) : (s.wait i).1.Numbered := by
  cases hi : s.isClosed i with
  | true =>
    rw [wait_of_closed hi]
    exact hs.same rfl (Nat.le_succ _)
  | false =>
    rw [(wait_of_open hi).1]
    exact (hs.enqueue i).resume s.nextWaiter

theorem queues_write (key : String) (content : Option Value) (s : Store) :
    (s.write key content).queues = s.queues ∧ (s.write key content).nextWaiter = s.nextWaiter := by
  constructor
  · rw [queues, queues, ← watches_cell key s]
    simp only [Store.write, List.map_map]
    refine List.map_congr_left fun x _ => ?_
    by_cases hx : x.cell = (s.cell key).2 <;> simp [hx]
  · have hcell : (s.cell key).1.nextWaiter = s.nextWaiter := by
      unfold Store.cell
      split <;> rfl
    exact hcell

theorem Numbered.occur {s : Store} (hs : s.Numbered) (e : Event) : (s.occur e).Numbered := by
  have hwrite (k : String) (content : Option Value) : (s.write k content).Numbered :=
    hs.same (queues_write k content s).1 (Nat.le_of_eq (queues_write k content s).2.symm)
  cases e with
  | set k data => exact hwrite k _
  | setWithVersion k version data => exact hwrite k _
  | delete k => exact hwrite k _
  | closeKey k =>
    have hsame : (s.closeKey k).watches = s.watches ∧ (s.closeKey k).nextWaiter = s.nextWaiter := by
      unfold Store.closeKey
      split <;> exact ⟨rfl, rfl⟩
    exact hs.same (congrArg (List.map Watch.queue) hsame.1) (Nat.le_of_eq hsame.2.symm)
  | watch k =>
    refine hs.of_queues (fun q hq => ?_) ?_
    · simp only [queues, Store.occur, Store.watch, watches_cell, List.map_append] at hq
      rcases List.mem_append.mp hq with hold | hnew
      · exact Or.inr ⟨q, hold, fun _ h => h⟩
      · exact Or.inl (List.mem_singleton.mp hnew)
    · simp only [Store.occur, Store.watch, Store.cell]
      split <;> exact Nat.le_refl _
  | look i =>
    change (s.look i).1.Numbered
    unfold Store.look
    split
    · exact hs
    · split
      · exact hs.serve i
      · exact hs
  | closeWatch i | dropWatch i =>
    refine hs.same (map_modify_of_eq ?_ i s.watches) (Nat.le_refl _)
    intro x
    rfl
  | wait i => exact hs.wait i
  | resume waiter => exact hs.resume waiter
  | leave waiter => exact hs.leave waiter

/-- As long as the cell goes on, what is read on the watch is what the key holds. -/
theorem Shows.after_of {e : Event} {v' : View} (h : (s.occur e).Shows w key v')
    (hdue : v'.due = ((e.hits key && !v.ended) || (v.due && !s.takes w e)))
    (hclosed : v'.closed = (v.closed || e.closes w)) (hended : v'.ended = (v.ended || e.ends key))
    (hcontent : v'.ended = true → v'.content = v.content) :
    (s.occur e).Shows w key (v.after w key s e) := by
  have hsame : v' = v.after w key s e := by
    have hread : v'.content = (v.after w key s e).content := by
      simp only [View.after, ← hended]
      cases hlive : v'.ended with
      | true => exact hcontent hlive
      | false => exact (h.get_eq hlive).symm
    obtain ⟨content, due, closed, ended⟩ := v'
    simp only at hread hdue hclosed hended
    rw [hread, hdue, hclosed, hended]
    rfl
  rwa [← hsame]

/-- A view changes only through writes to the key before it is closed, through signals that are taken,
and through closing. -/
theorem Shows.occur (h : s.Shows w key v) (hs : s.Sound) (hn : s.Numbered) (e : Event) :
    (s.occur e).Shows w key (v.after w key s e) := by
  have hwrite (k : String) (content : Option Value) (he : e.hits key = decide (k = key))
      (hother : e.ends key = false ∧ e.closes w = false ∧ s.takes w e = false)
      (hview : (s.occur e).Shows w key
        (if k = key ∧ v.ended = false then { v with content, due := true } else v)) :
      (s.occur e).Shows w key (v.after w key s e) := by
    obtain ⟨hends, hcloses, htakes⟩ := hother
    refine hview.after_of ?_ ?_ ?_ ?_
    all_goals
      by_cases hk : k = key <;> cases hlive : v.ended <;> simp [he, hends, hcloses, htakes, hk, hlive]
  cases e with
  | set k data => exact hwrite k _ rfl ⟨rfl, rfl, rfl⟩ (h.write hs k _)
  | setWithVersion k version data => exact hwrite k _ rfl ⟨rfl, rfl, rfl⟩ (h.write hs k _)
  | delete k => exact hwrite k _ rfl ⟨rfl, rfl, rfl⟩ (h.write hs k _)
  | closeKey k =>
    refine Shows.after_of (h.closeKey hs k) ?_ (Bool.or_false _).symm rfl fun _ => rfl
    simp [Event.hits, takes, answer?]
  | watch k =>
    refine Shows.after_of (h.watch k) ?_ (Bool.or_false _).symm (Bool.or_false _).symm fun _ => rfl
    simp [Event.hits, takes, answer?]
  | look i =>
    exact Shows.after_of (h.look i) rfl (Bool.or_false _).symm (Bool.or_false _).symm fun _ => rfl
  | closeWatch i =>
    refine Shows.after_of (h.closeWatch i) ?_ rfl (Bool.or_false _).symm fun _ => rfl
    simp [Event.hits, takes, answer?]
  | dropWatch i =>
    have hdrop : (s.dropWatch i).Shows w key v := h.modify_quiet i fun _ => ⟨rfl, rfl, rfl⟩
    refine Shows.after_of hdrop ?_ (Bool.or_false _).symm (Bool.or_false _).symm fun _ => rfl
    simp [Event.hits, takes, answer?]
  | wait i =>
    exact Shows.after_of (h.wait hn i) rfl (Bool.or_false _).symm (Bool.or_false _).symm fun _ => rfl
  | resume waiter =>
    exact Shows.after_of (h.resume waiter) rfl (Bool.or_false _).symm (Bool.or_false _).symm
      fun _ => rfl
  | leave waiter =>
    refine Shows.after_of (h.leave waiter) ?_ (Bool.or_false _).symm (Bool.or_false _).symm fun _ => rfl
    simp [Event.hits, takes, answer?]

/-! ### Answers -/

/-- Whoever is served is told what the watch shows. -/
theorem Shows.answer (h : s.Shows w key v) (hn : s.Numbered) {e : Event} {signal : Signal}
    (he : s.answer? w e = some signal) : signal = v.signal := by
  have hclosed (hc : s.isClosed w = true) : v.signal = .ended := by
    rw [View.signal, ← h.isClosed_eq, if_pos hc]
  have hresume (t : Store) (ht : t.Shows w key v) (waiter : Nat)
      (hw : t.answer? w (.resume waiter) = some signal) : signal = v.signal := by
    rcases resume_cases waiter t with ⟨_, hnone⟩ | ⟨i, hon, hfirst, hsignal, _⟩
    · rw [hnone w] at hw
      cases hw
    · obtain ⟨⟨hi, _⟩, hsame⟩ := Option.ite_none_right_eq_some.mp hw
      obtain rfl := Option.some.inj (hon.symm.trans hi)
      rw [← Option.some.inj hsame, hsignal, serve_snd, ht.peek_eq]
  cases e with
  | look i =>
    obtain ⟨⟨rfl, hfree⟩, hsame⟩ := Option.ite_none_right_eq_some.mp he
    obtain rfl := Option.some.inj hsame
    unfold Store.look
    cases hc : s.isClosed i with
    | true => exact (hclosed hc).symm
    | false =>
      have hempty : (s.queueOf i).isEmpty = true := by simpa [isFree, hc] using hfree
      simp only [hempty, Bool.false_eq_true, if_false, if_true, serve_snd]
      exact h.peek_eq
  | wait i =>
    cases hc : s.isClosed i with
    | true =>
      obtain ⟨⟨rfl, _⟩, hsame⟩ := Option.ite_none_right_eq_some.mp he
      rw [wait_of_closed hc] at hsame
      rw [hclosed hc]
      exact (Option.some.inj hsame).symm
    | false =>
      rw [h.answer?_wait hn hc] at he
      exact hresume (s.enqueue i) (h.enqueue i) s.nextWaiter he
  | resume waiter => exact hresume s h waiter he
  | set _ _ | setWithVersion _ _ _ | delete _ | closeKey _ | watch _ | closeWatch _ | dropWatch _
  | leave _ => cases he

end Shown

end NamespaceTopology.Store
