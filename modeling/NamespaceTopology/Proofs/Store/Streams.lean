import NamespaceTopology.Proofs.Store.Signals

set_option autoImplicit false

/-!
The stream of one watch, up to its end. While it goes on, the watch shows what is written to its key. When
the key is closed what was written last stays to be read, and a signal that is due stays due, until
somebody takes it.
-/
namespace NamespaceTopology.Store

/-- The stream of a watch goes on: neither the watch nor the cell that it is on has come to an end. -/
def Streams (w : Nat) (s : Store) : Prop := s.isClosed w = false ∧ ¬ s.Ended w

/-- What an event puts under a key: a value, or nothing if the key is deleted. To close the key is not to
put anything there. -/
def Event.put? (key : String) (s : Store) (e : Event) : Option (Option Value) :=
  if e.ends key then none else e.written? key s

theorem put?_of_not_ends {key : String} {e : Event} (hends : e.ends key = false) (s : Store) :
    e.put? key s = e.written? key s := if_neg (ne_true_of_eq_false hends)

/-- A content is written to the key of a watch. It does not come to a cell that has ended. -/
def View.write (v : View) (content : Option Value) : View :=
  if v.ended then v else { v with content, due := true }

theorem View.write_of_ended {v : View} (hended : v.ended = true) (content : Option Value) :
    v.write content = v := if_pos hended

theorem View.write_of_live {v : View} (hlive : v.ended = false) (content : Option Value) :
    v.write content = { v with content, due := true } := if_neg (ne_true_of_eq_false hlive)

theorem View.ended_write (v : View) (content : Option Value) : (v.write content).ended = v.ended := by
  unfold write
  split <;> rfl

theorem View.foldl_write_of_ended {v : View} (hended : v.ended = true)
    (contents : List (Option Value)) : contents.foldl View.write v = v := by
  induction contents with
  | nil => rfl
  | cons content contents ih => rw [List.foldl_cons, View.write_of_ended hended, ih]

theorem View.foldl_write_of_live {v : View} (hlive : v.ended = false)
    {contents : List (Option Value)} {last : Option Value} (hlast : contents.getLast? = some last) :
    contents.foldl View.write v = { v with content := last, due := true } := by
  obtain ⟨before, rfl⟩ := List.getLast?_eq_some_iff.mp hlast
  have hbefore : (before.foldl View.write v).ended = false ∧
      (before.foldl View.write v).closed = v.closed := by
    clear hlast
    induction before generalizing v with
    | nil => exact ⟨hlive, rfl⟩
    | cons content before ih =>
      rw [List.foldl_cons, View.write_of_live hlive]
      exact ih hlive
  rw [List.foldl_append, List.foldl_cons, List.foldl_nil, View.write_of_live hbefore.1, hbefore.1,
    hbefore.2, ← hlive]

section Shown

variable {w : Nat} {key : String} {v : View} {s : Store}

theorem Tracks.shows {P : Option Value → Prop} (h : s.Tracks w key P) : ∃ v, s.Shows w key v := by
  obtain ⟨x, c, hx, hc, _, hcell, _⟩ := h
  exact ⟨_, x, c, hx, hc, rfl, hcell⟩

theorem Shows.ended_iff (h : s.Shows w key v) : v.ended = true ↔ s.Ended w := by
  obtain ⟨x, c, hx, hc, rfl, _⟩ := h
  constructor
  · intro hended
    exact ⟨x, c, hx, hc, hended⟩
  · rintro ⟨y, b, hy, hb, hended⟩
    obtain rfl := Option.some.inj (hx.symm.trans hy)
    obtain rfl := Option.some.inj (hc.symm.trans hb)
    exact hended

theorem Shows.of_streams (h : s.Shows w key v) (hstreams : s.Streams w) :
    v.closed = false ∧ v.ended = false :=
  ⟨h.isClosed_eq.symm.trans hstreams.1, Bool.eq_false_iff.mpr fun hended =>
    hstreams.2 (h.ended_iff.mp hended)⟩

theorem Tracks.queueOf_eq {P : Option Value → Prop} (h : s.Tracks w key P) : s.queueOf w = [] := by
  obtain ⟨x, _, hx, _, hqueue, _⟩ := h
  rw [queueOf, hx, Option.map_some, hqueue, Option.getD_some]

theorem Shows.look_eq (h : s.Shows w key v) (hqueue : s.queueOf w = []) : (s.look w).2 = v.signal := by
  unfold Store.look
  cases hclosed : s.isClosed w with
  | true =>
    rw [View.signal, ← h.isClosed_eq, hclosed]
    rfl
  | false =>
    simp only [hqueue, List.isEmpty_nil, Bool.false_eq_true, if_false, if_true, serve_snd]
    exact h.peek_eq

/-- Who is served on a watch that nobody waits on was asking that watch. -/
theorem Tracks.takes_eq_false {P : Option Value → Prop} (h : s.Tracks w key P) {e : Event}
    (he : e.taken? ≠ some w) : s.takes w e = false := by
  have hnone : s.answer? w e = none := by
    cases e with
    | look i | wait i => exact if_neg fun hi => he (congrArg some hi.1)
    | resume waiter =>
      refine if_neg fun hfirst => ?_
      rw [h.queueOf_eq] at hfirst
      cases hfirst.2
    | _ => rfl
  rw [takes, hnone]
  rfl

theorem isSome_written? {e : Event} (hends : e.ends key = false) :
    (e.written? key s).isSome = e.hits key := by
  cases e with
  | set k _ | setWithVersion k _ _ | delete k | closeKey k =>
    by_cases hk : k = key <;> simp_all [Event.written?, Event.hits, Event.ends]
  | _ => rfl

/-- What neither takes a signal of the watch nor closes it changes its view by what is written only. -/
theorem Shows.after_eq_write (h : s.Shows w key v) (hs : s.Sound) {e : Event}
    (hends : v.ended = true ∨ e.ends key = false) (hcloses : e.closes w = false)
    (htakes : s.takes w e = false) :
    v.after w key s e = (e.put? key s).toList.foldl View.write v := by
  have hget := hs.get_occur key e
  cases hlive : v.ended with
  | true =>
    rw [View.foldl_write_of_ended hlive]
    obtain ⟨content, due, closed, ended⟩ := v
    simp only at hlive
    simp [View.after, hlive, hcloses, htakes]
  | false =>
    have hgoes : e.ends key = false := hends.resolve_left (by simp [hlive])
    have hread := h.get_eq hlive
    have hwritten := isSome_written? (s := s) hgoes
    rw [put?_of_not_ends hgoes]
    obtain ⟨content, due, closed, ended⟩ := v
    simp only at hlive hread
    cases hcontent : e.written? key s with
    | none =>
      rw [hcontent] at hget hwritten
      simp [View.after, hlive, hgoes, hcloses, htakes, hget, hread, ← hwritten]
    | some c =>
      rw [hcontent] at hget hwritten
      simp [View.after, View.write, hlive, hgoes, hcloses, htakes, hget, ← hwritten]

/-! ### What a node does to its store -/

def Event.spares (w : Nat) : Event → Bool
  | .look i | .closeWatch i => i ≠ w
  | .watch _ | .dropWatch _ => true
  | _ => false

def Leads (kind : Event → Bool) (s s' : Store) : Prop :=
  ∃ es, (∀ e ∈ es, kind e = true) ∧ s.run es = s'

variable {kind : Event → Bool}

theorem Leads.refl (s : Store) : s.Leads kind s := ⟨[], by simp, rfl⟩

theorem Leads.trans {s t u : Store} (h : s.Leads kind t) (h' : t.Leads kind u) : s.Leads kind u := by
  obtain ⟨es, hes, rfl⟩ := h
  obtain ⟨es', hes', rfl⟩ := h'
  refine ⟨es ++ es', ?_, run_append s es es'⟩
  intro e he
  exact (List.mem_append.mp he).elim (hes e) (hes' e)

theorem Leads.of {e : Event} (he : kind e = true) (s : Store) : s.Leads kind (s.occur e) :=
  ⟨[e], by simpa using he, rfl⟩

theorem Leads.keep {P : Store → Prop} (hP : ∀ s e, kind e = true → P s → P (s.occur e)) {s s' : Store}
    (h : s.Leads kind s') (hs : P s) : P s' := by
  obtain ⟨es, hes, rfl⟩ := h
  induction es generalizing s with
  | nil => exact hs
  | cons e es ih =>
    obtain ⟨he, hes⟩ := List.forall_mem_cons.mp hes
    exact ih (hP s e he hs) hes

theorem Shows.spared (h : s.Shows w key v) (hs : s.Sound) (hn : s.Numbered) {s' : Store}
    (hspared : s.Leads (Event.spares w) s') : s'.Shows w key v := by
  refine (hspared.keep (P := fun s => s.Sound ∧ s.Numbered ∧ s.Shows w key v) ?_ ⟨hs, hn, h⟩).2.2
  rintro s e he ⟨hs, hn, h⟩
  refine ⟨hs.occur e, hn.occur e, ?_⟩
  cases e with
  | look i =>
    have hi : i ≠ w := of_decide_eq_true he
    exact h.occur_quiet hs hn rfl rfl rfl (by simp [takes, answer?, hi])
  | closeWatch i => exact h.occur_quiet hs hn rfl rfl (decide_eq_false (of_decide_eq_true he)) rfl
  | watch _ | dropWatch _ => exact h.occur_quiet hs hn rfl rfl rfl rfl
  | _ => cases he

/-! ### After the end -/

/-- The cell of a watch has ended with this content, and no signal is due any more unless `due` says so. -/
def Rests (w : Nat) (key : String) (content : Option Value) (due : Bool) (s : Store) : Prop :=
  ∃ v, s.Shows w key v ∧ v.content = content ∧ v.ended = true ∧ (v.due = true → due = true)

variable {content : Option Value} {due : Bool}

/-- Whatever happens, the content stays. -/
theorem Rests.occur (h : s.Rests w key content due) (hs : s.Sound) (hn : s.Numbered) (e : Event) :
    (s.occur e).Rests w key content due := by
  obtain ⟨v, hv, hcontent, hended, hdue⟩ := h
  refine ⟨_, hv.occur hs hn e, ?_, ?_, fun hafter => hdue ?_⟩
  · rw [View.after, hended, Bool.true_or, if_pos rfl, hcontent]
  · rw [View.after, hended, Bool.true_or]
  · simp only [View.after, hended, Bool.not_true, Bool.and_false, Bool.false_or, Bool.and_eq_true]
      at hafter
    exact hafter.1

theorem takes_of_look (h : (s.look w).2 = .changed) : s.takes w (.look w) = true := by
  have hfree : s.isFree w = true := by
    unfold look at h
    split at h
    · cases h
    · split at h
      next hempty => rw [isFree, hempty, Bool.or_true]
      · cases h
  rw [takes, answer?, if_pos ⟨rfl, hfree⟩, h]
  rfl

/-- After a signal has been taken there is none any more. -/
theorem Rests.look (h : s.Rests w key content due) (hchanged : (s.look w).2 = .changed) :
    (s.look w).1.Rests w key content false := by
  obtain ⟨v, hv, hcontent, hended, _⟩ := h
  refine ⟨_, hv.look w, hcontent, hended, fun hdue => ?_⟩
  rw [takes_of_look hchanged, Bool.not_true, Bool.and_false] at hdue
  cases hdue

theorem Rests.look_eq_ended (h : s.Rests w key content false) (hqueue : s.queueOf w = []) :
    (s.look w).2 = .ended := by
  obtain ⟨v, hv, _, hended, hdue⟩ := h
  have hnone : v.due = false := Bool.eq_false_iff.mpr fun hdue' => by simpa using hdue hdue'
  rw [hv.look_eq hqueue, View.signal, hnone, hended]
  split <;> rfl

/-! ### What a watch draws from -/

def Serves (key : String) (contents : List (Option Value)) (s : Store) : Prop :=
  s.get key = none ∨ s.get key ∈ contents

/-- A watch shows one of some contents, or nothing was written to its cell yet. -/
def Draws (w : Nat) (key : String) (contents : List (Option Value)) (s : Store) : Prop :=
  ∃ v, s.Shows w key v ∧ (v.content ∈ contents ∨ (v.content = none ∧ v.due = false))

variable {contents : List (Option Value)}

theorem Serves.occur (h : s.Serves key contents) (hs : s.Sound) (e : Event) :
    (s.occur e).Serves key (contents ++ (e.put? key s).toList) := by
  rw [Serves, hs.get_occur]
  cases hends : e.ends key with
  | true =>
    obtain rfl := ends_iff.mp hends
    left
    simp [Event.written?]
  | false =>
    rw [put?_of_not_ends hends]
    cases e.written? key s with
    | none => exact h.imp_right (List.mem_append_left _)
    | some content => exact Or.inr (List.mem_append_right _ List.mem_cons_self)

theorem draws_watch (h : s.Serves key contents) (hs : s.Sound) :
    (s.watch key).1.Draws (s.watch key).2 key contents := by
  refine ⟨_, shows_watch hs key, h.symm.imp_right fun hnone => ⟨hnone, ?_⟩⟩
  exact Option.isSome_eq_false_iff.mpr (Option.isNone_iff_eq_none.mpr hnone)

theorem Draws.occur (h : s.Draws w key contents) (hs : s.Sound) (hn : s.Numbered) (e : Event) :
    (s.occur e).Draws w key (contents ++ (e.put? key s).toList) := by
  obtain ⟨v, hv, hcontent⟩ := h
  refine ⟨_, hv.occur hs hn e, ?_⟩
  -- Without a write to its cell the watch shows what it showed.
  have hkept (hsame : (v.after w key s e).content = v.content)
      (hunwritten : (e.hits key && !v.ended) = false) :
      (v.after w key s e).content ∈ contents ++ (e.put? key s).toList ∨
        ((v.after w key s e).content = none ∧ (v.after w key s e).due = false) := by
    rw [hsame]
    refine hcontent.imp (List.mem_append_left _) fun hquiet => ⟨hquiet.1, ?_⟩
    simp only [View.after, hunwritten, hquiet.2, Bool.false_and, Bool.or_false]
  cases hended : v.ended with
  | true => exact hkept (by simp [View.after, hended]) (by simp [hended])
  | false =>
    cases hends : e.ends key with
    | true =>
      obtain rfl := ends_iff.mp hends
      exact hkept (by simp [View.after, hends]) rfl
    | false =>
      have hafter : (v.after w key s e).content = (e.written? key s).getD v.content := by
        simp only [View.after, hended, hends, Bool.or_false, Bool.false_eq_true, if_false]
        rw [hs.get_occur, hv.get_eq hended]
      have hwritten := isSome_written? (s := s) hends
      rw [put?_of_not_ends hends] at hkept ⊢
      cases hw : e.written? key s with
      | none =>
        rw [hw] at hafter hwritten hkept
        exact hkept hafter (by rw [← hwritten]; rfl)
      | some content =>
        left
        rw [hafter, hw]
        exact List.mem_append_right _ List.mem_cons_self

/-- A signal tells of one of the contents. -/
theorem Draws.contentOf_mem (h : s.Draws w key contents) (hqueue : s.queueOf w = [])
    (hchanged : (s.look w).2 = .changed) : s.contentOf w ∈ contents := by
  obtain ⟨v, hv, hcontent⟩ := h
  rw [hv.look_eq hqueue] at hchanged
  rw [hv.contentOf_eq]
  refine hcontent.resolve_right fun hnone => ?_
  exact View.signal_of_due_eq_false hnone.2 hchanged

end Shown

end NamespaceTopology.Store
