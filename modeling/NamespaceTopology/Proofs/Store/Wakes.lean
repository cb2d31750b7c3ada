import NamespaceTopology.Proofs.Store.Signals

set_option autoImplicit false

/-!
What wakes one who waits on a watch. If nobody else asks the watch, it has something to tell just if its key
had a value when it was started or has been written or closed since, and it then reads what was written last
before the key was closed.
-/
namespace NamespaceTopology.Store

def Event.stirs (key : String) (e : Event) : Bool := e.hits key || e.ends key

/-- One who looks at a watch meets a signal just if the watch is stirred, and reads this content. -/
structure Offers (w : Nat) (content : Option Value) (stirred : Bool) (s : Store) : Prop where
  peek : s.peek w = .waiting ↔ stirred = false
  look : (s.look w).2 = s.peek w
  content : (s.look w).1.contentOf w = content
  store : s.peek w = .waiting → (s.look w).1 = s

variable {w : Nat} {key : String} {s s' : Store}

theorem lastWritten_congr (hs : s.Sound) (hs' : s'.Sound) (h : ∀ key, s'.get key = s.get key)
    (content : Option Value) (es : List Event) :
    lastWritten key content s' es = lastWritten key content s es := by
  induction es generalizing content s s' with
  | nil => rfl
  | cons e es ih =>
    have hwritten (k : String) : e.written? k s' = e.written? k s := written?_congr (h k) e
    rw [lastWritten, lastWritten, hwritten]
    refine ite_congr rfl (fun _ => rfl) fun _ => ih (hs.occur e) (hs'.occur e) (fun k => ?_) _
    rw [hs'.get_occur, hs.get_occur, hwritten, h]

theorem answersAlong_of_writes (w : Nat) (s : Store) {es : List Event}
    (hes : ∀ e ∈ es, e.writes = true) : answersAlong w s es = [] := by
  induction es generalizing s with
  | nil => rfl
  | cons e es ih =>
    obtain ⟨he, hes⟩ := List.forall_mem_cons.mp hes
    rw [answersAlong, ih _ hes]
    cases e with
    | set _ _ | setWithVersion _ _ _ | delete _ | closeKey _ => rfl
    | watch _ | look _ | closeWatch _ | dropWatch _ | wait _ | resume _ | leave _ => cases he

theorem due_or_ended_iff {es : List Event} (hes : ∀ e ∈ es, e.writes = true) :
    Due w key s es ∨ .closeKey key ∈ es ↔
      (s.get key).isSome = true ∨ ∃ e ∈ es, e.stirs key = true := by
  have hnone (s : Store) {after : List Event} (hsub : ∀ e ∈ after, e ∈ es) :
      .changed ∉ answersAlong w s after := by
    rw [answersAlong_of_writes w s fun e he => hes e (hsub e he)]
    exact List.not_mem_nil
  constructor
  · rintro ((⟨before, e, after, rfl, he, _, _⟩ | ⟨hsome, _⟩) | hended)
    · exact Or.inr ⟨e, by simp, by simp [Event.stirs, he]⟩
    · exact Or.inl hsome
    · exact Or.inr ⟨_, hended, by simp [Event.stirs, ends_iff.mpr rfl]⟩
  · rintro (hsome | ⟨e, he, hstirs⟩)
    · exact Or.inl (Or.inr ⟨hsome, hnone s fun _ h => h⟩)
    · rcases (Bool.or_eq_true ..).mp hstirs with hhits | hends
      · obtain ⟨before, after, rfl⟩ := List.append_of_mem he
        -- A write to a cell that has ended is no signal, but the end is one.
        by_cases hlive : .closeKey key ∈ before
        · exact Or.inr (List.mem_append_left _ hlive)
        · exact Or.inl (Or.inl ⟨before, e, after, rfl, hhits, hlive,
            hnone _ fun k hk => by simp [hk]⟩)
      · exact Or.inr (ends_iff.mp hends ▸ he)

theorem Shows.offers {v : View} (h : s.Shows w key v) (hqueue : s.queueOf w = [])
    (hopen : v.closed = false) : s.Offers w v.content (v.due || v.ended) := by
  have hlook : s.look w = s.serve w := by
    simp [Store.look, h.isClosed_eq, hopen, hqueue]
  refine ⟨?_, ?_, ?_, ?_⟩
  · rw [h.peek_eq, View.signal, hopen]
    cases v.due <;> cases v.ended <;> simp
  · rw [hlook, serve_snd]
  · rw [hlook, h.serve_self.contentOf_eq]
  · intro hwaiting
    rw [hlook, serve, hwaiting]

/-- A watch that was started before some writes, to its key or others. -/
theorem offers_of_writes (hs : s.Sound) (hn : s.Numbered) (key : String) {es : List Event}
    (hes : ∀ e ∈ es, e.writes = true) :
    ((s.watch key).1.run es).Offers (s.watch key).2 (lastWritten key (s.get key) s es)
      ((s.get key).isSome || es.any (Event.stirs key)) := by
  have hget (k : String) : (s.watch key).1.get k = s.get k :=
    (get_congr ⟨rfl, rfl⟩ k).trans (hs.get_cell k key)
  have hnever {e : Event} (he : e.writes = false) : e ∉ es := fun hmem => by
    rw [hes e hmem] at he
    cases he
  obtain ⟨v, hv, htold⟩ := told_run hs hn key es
  have hqueue : ((s.watch key).1.run es).queueOf (s.watch key).2 = [] := by
    obtain ⟨x, _, hx, _, hqueue, _⟩ := (tracks_watch hs.bounded key).run_unwaited (hnever rfl)
    rw [queueOf, hx]
    exact hqueue
  have hopen : v.closed = false :=
    Bool.eq_false_iff.mpr fun hclosed => hnever rfl (htold.closed.mp hclosed)
  have hstirred : (v.due || v.ended) = ((s.get key).isSome || es.any (Event.stirs key)) := by
    rw [Bool.eq_iff_iff, Bool.or_eq_true, htold.due, htold.ended, due_or_ended_iff hes, hget,
      Bool.or_eq_true, List.any_eq_true]
  have hcontent : v.content = lastWritten key (s.get key) s es := by
    rw [htold.content, hget]
    exact lastWritten_congr hs (hs.occur (.watch key)) hget _ es
  rw [← hstirred, ← hcontent]
  exact hv.offers hqueue hopen

end NamespaceTopology.Store
