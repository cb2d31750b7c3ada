import NamespaceTopology.Proofs.Store.Views

set_option autoImplicit false

/-!
When a watch is signalled, told from the events alone: by what was written to its key since the last
signal was taken, by who closed the watch, and by whether the key was closed. However often the key is
written between two signals, one signal is taken, and what is read is the last that was written.
-/
namespace NamespaceTopology.Store

def run (s : Store) (es : List Event) : Store := es.foldl occur s

theorem run_append (s : Store) (es es' : List Event) : s.run (es ++ es') = (s.run es).run es' :=
  List.foldl_append

def answersAlong (w : Nat) : Store → List Event → List Signal
  | _, [] => []
  | s, e :: es => (s.answer? w e).toList ++ answersAlong w (s.occur e) es

/-- Somebody has written to the cell of a watch on the key since the last signal of change was taken, or
since the run began. -/
def WrittenSince (w : Nat) (key : String) (s : Store) (es : List Event) : Prop :=
  ∃ before e after, es = before ++ e :: after ∧ e.hits key = true ∧ .closeKey key ∉ before ∧
    .changed ∉ answersAlong w (s.run (before ++ [e])) after

/-- A signal of change waits on a watch that was started before the run. The first signal waits as well
if the key had a value when the watch was started. -/
def Due (w : Nat) (key : String) (s : Store) (es : List Event) : Prop :=
  WrittenSince w key s es ∨ ((s.get key).isSome = true ∧ .changed ∉ answersAlong w s es)

/-- What one who asks is told: a watch that was closed has ended, else a change is told, else the end of
the cell, and else the one who asks waits. -/
inductive Meets (closed due ended : Prop) : Signal → Prop
  | closed (h : closed) : Meets closed due ended .ended
  | changed (hopen : ¬ closed) (h : due) : Meets closed due ended .changed
  | ended (hopen : ¬ closed) (hnone : ¬ due) (h : ended) : Meets closed due ended .ended
  | waiting (hopen : ¬ closed) (hnone : ¬ due) (hlive : ¬ ended) : Meets closed due ended .waiting

/-- What was written last to the key before it was closed, `content` if nothing was. -/
def lastWritten (key : String) : Option Value → Store → List Event → Option Value
  | content, _, [] => content
  | content, s, e :: es =>
    if e.ends key then content
    else lastWritten key ((e.written? key s).getD content) (s.occur e) es

/-! ### Histories -/

theorem answersAlong_append (w : Nat) (s : Store) (es es' : List Event) :
    answersAlong w s (es ++ es') = answersAlong w s es ++ answersAlong w (s.run es) es' := by
  induction es generalizing s with
  | nil => rfl
  | cons e es ih =>
    rw [List.cons_append, answersAlong, ih, answersAlong, List.append_assoc]
    rfl

theorem not_changed_concat {w : Nat} {s : Store} {es : List Event} {e : Event} :
    .changed ∉ answersAlong w s (es ++ [e]) ↔
      .changed ∉ answersAlong w s es ∧ (s.run es).takes w e = false := by
  rw [answersAlong_append, List.mem_append, not_or]
  refine and_congr_right fun _ => ?_
  simp [answersAlong, takes]

theorem ends_iff {key : String} {e : Event} : e.ends key = true ↔ e = .closeKey key := by
  cases e <;> simp [Event.ends]

theorem closes_iff {w : Nat} {e : Event} : e.closes w = true ↔ e = .closeWatch w := by
  cases e <;> simp [Event.closes]

theorem mem_concat_iff {e a : Event} {es : List Event} : e ∈ es ++ [a] ↔ e ∈ es ∨ a = e := by
  simp [eq_comm]

theorem writtenSince_concat {w : Nat} {key : String} {s : Store} {es : List Event} {e : Event} :
    WrittenSince w key s (es ++ [e]) ↔ (e.hits key = true ∧ .closeKey key ∉ es) ∨
      (WrittenSince w key s es ∧ (s.run es).takes w e = false) := by
  constructor
  · rintro ⟨before, k, after, hes, hk, hbefore, hafter⟩
    rcases List.eq_nil_or_concat after with rfl | ⟨after, last, rfl⟩
    · obtain ⟨rfl, hsame⟩ := List.append_inj' hes rfl
      obtain rfl := (List.cons.inj hsame).1
      exact Or.inl ⟨hk, hbefore⟩
    · have hsplit : es ++ [e] = (before ++ k :: after) ++ [last] := by simpa using hes
      obtain ⟨rfl, hsame⟩ := List.append_inj' hsplit rfl
      obtain rfl := (List.cons.inj hsame).1
      rw [List.concat_eq_append] at hafter
      obtain ⟨hnone, htakes⟩ := not_changed_concat.mp hafter
      refine Or.inr ⟨⟨before, k, after, rfl, hk, hbefore, hnone⟩, ?_⟩
      rwa [← run_append, List.append_assoc] at htakes
  · rintro (⟨hk, hbefore⟩ | ⟨⟨before, k, after, rfl, hk, hbefore, hnone⟩, htakes⟩)
    · exact ⟨es, e, [], rfl, hk, hbefore, List.not_mem_nil⟩
    · refine ⟨before, k, after ++ [e], by simp, hk, hbefore, not_changed_concat.mpr ⟨hnone, ?_⟩⟩
      rwa [← run_append, List.append_assoc]

/-- A signal waits after an event if the event wrote to the cell, or if one waited before and was not
taken. -/
theorem due_concat {w : Nat} {key : String} {s : Store} {es : List Event} {e : Event} :
    Due w key s (es ++ [e]) ↔ (e.hits key = true ∧ .closeKey key ∉ es) ∨
      (Due w key s es ∧ (s.run es).takes w e = false) := by
  rw [Due, Due, writtenSince_concat, not_changed_concat, or_and_right, or_assoc, and_assoc]

/-! ### Runs -/

variable {w : Nat} {key : String} {s : Store}

/-- What every event keeps, a run keeps. -/
theorem run_of {P : Store → Prop} (hstep : ∀ s e, P s → P (s.occur e)) (h : P s)
    (es : List Event) : P (s.run es) := by
  induction es generalizing s with
  | nil => exact h
  | cons e es ih => exact ih (hstep s e h)

theorem Sound.run (hs : s.Sound) (es : List Event) : (s.run es).Sound :=
  run_of (fun _ e h => h.occur e) hs es

theorem Numbered.run (hs : s.Numbered) (es : List Event) : (s.run es).Numbered :=
  run_of (fun _ e h => h.occur e) hs es

/-- As long as the key is not closed, what was written to it last is what it holds. -/
theorem lastWritten_eq_get (hs : s.Sound) {es : List Event} (hlive : .closeKey key ∉ es) :
    lastWritten key (s.get key) s es = (s.run es).get key := by
  induction es generalizing s with
  | nil => rfl
  | cons e es ih =>
    have he : e.ends key = false := by
      refine Bool.eq_false_iff.mpr fun hends => hlive ?_
      exact ends_iff.mp hends ▸ List.mem_cons_self
    rw [lastWritten, he, if_neg Bool.false_ne_true, ← hs.get_occur key e,
      ih (hs.occur e) fun hmem => hlive (List.mem_cons_of_mem e hmem)]
    rfl

theorem lastWritten_concat (content : Option Value) (es : List Event) (e : Event) :
    lastWritten key content s (es ++ [e]) =
      if (es ++ [e]).any (Event.ends key) then lastWritten key content s es
      else (e.written? key (s.run es)).getD (lastWritten key content s es) := by
  induction es generalizing s content with
  | nil => cases h : e.ends key <;> simp [lastWritten, h, Store.run]
  | cons k es ih =>
    rw [List.cons_append, lastWritten, lastWritten, List.any_cons]
    cases hk : k.ends key with
    | true => simp
    | false =>
      simp only [Bool.false_eq_true, if_false, Bool.false_or]
      exact ih _

structure Told (w : Nat) (key : String) (s : Store) (es : List Event) (v : View) : Prop where
  content : v.content = lastWritten key (s.get key) s es
  due : v.due = true ↔ Due w key s es
  closed : v.closed = true ↔ .closeWatch w ∈ es
  ended : v.ended = true ↔ .closeKey key ∈ es

theorem Told.after {es : List Event} {v : View} (h : Told w key s es v) (hs : s.Sound) (e : Event) :
    Told w key s (es ++ [e]) (v.after w key (s.run es) e) := by
  have hended : (v.ended || e.ends key) = true ↔ .closeKey key ∈ es ++ [e] := by
    rw [Bool.or_eq_true, h.ended, ends_iff, mem_concat_iff]
  refine ⟨?_, ?_, ?_, hended⟩
  · have hany : (es ++ [e]).any (Event.ends key) = (v.ended || e.ends key) := by
      rw [Bool.eq_iff_iff, hended, List.any_eq_true]
      simp only [ends_iff, exists_eq_right]
    rw [lastWritten_concat, hany, View.after, ← h.content]
    cases hlive : v.ended || e.ends key with
    | true => rfl
    | false =>
      have hget : (s.run es).get key = v.content := by
        have hnever : .closeKey key ∉ es := by
          rw [← h.ended]
          exact fun hv => by simp [hv] at hlive
        rw [h.content, lastWritten_eq_get hs hnever]
      simp only [Bool.false_eq_true, if_false, (hs.run es).get_occur, hget]
  · rw [View.after, due_concat, Bool.or_eq_true, Bool.and_eq_true, Bool.and_eq_true, h.due,
      Bool.not_eq_true', Bool.not_eq_true', ← h.ended, Bool.not_eq_true]
  · rw [View.after, Bool.or_eq_true, h.closed, closes_iff, mem_concat_iff]

theorem Told.run {past : List Event} {v : View} (h : Told w key s past v)
    (hshows : (s.run past).Shows w key v) (hs : s.Sound) (hn : s.Numbered) (es : List Event) :
    ∃ v', (s.run (past ++ es)).Shows w key v' ∧ Told w key s (past ++ es) v' := by
  induction es generalizing past v with
  | nil =>
    rw [List.append_nil]
    exact ⟨v, hshows, h⟩
  | cons e es ih =>
    have hnext : (s.run (past ++ [e])).Shows w key (v.after w key (s.run past) e) := by
      rw [run_append]
      exact hshows.occur (hs.run past) (hn.run past) e
    rw [List.append_cons]
    exact ih (h.after hs e) hnext

/-- A watch that has just been started shows after a run what the run tells. -/
theorem told_run (hs : s.Sound) (hn : s.Numbered) (key : String) (es : List Event) :
    ∃ v, ((s.watch key).1.run es).Shows (s.watch key).2 key v ∧
      Told (s.watch key).2 key (s.watch key).1 es v := by
  have hget : (s.watch key).1.get key = s.get key :=
    (get_congr ⟨rfl, rfl⟩ key).trans (hs.get_cell key key)
  have htold : Told (s.watch key).2 key (s.watch key).1 []
      ⟨s.get key, (s.get key).isSome, false, false⟩ := by
    refine ⟨hget.symm, ?_, by simp, by simp⟩
    simp [Due, WrittenSince, answersAlong, hget]
  exact htold.run (shows_watch hs key) (hs.occur (.watch key)) (hn.occur (.watch key)) es

theorem Told.meets {es : List Event} {v : View} (h : Told w key s es v) :
    Meets (.closeWatch w ∈ es) (Due w key s es) (.closeKey key ∈ es) v.signal := by
  rw [← h.closed, ← h.due, ← h.ended, View.signal]
  cases hclosed : v.closed with
  | true => exact .closed rfl
  | false =>
    cases hdue : v.due with
    | true => exact .changed Bool.false_ne_true rfl
    | false =>
      cases hended : v.ended with
      | true => exact .ended Bool.false_ne_true Bool.false_ne_true rfl
      | false => exact .waiting Bool.false_ne_true Bool.false_ne_true Bool.false_ne_true

/-! ### Signals that are not due -/

theorem written?_eq_none {e : Event} (hhits : e.hits key = false) (hends : e.ends key = false) :
    e.written? key s = none := by
  cases e <;> simp_all [Event.hits, Event.ends, Event.written?]

/-- What neither touches the key nor asks or closes the watch leaves its view alone. -/
theorem Shows.occur_quiet {v : View} (h : s.Shows w key v) (hs : s.Sound) (hn : s.Numbered) {e : Event}
    (hhits : e.hits key = false) (hends : e.ends key = false) (hcloses : e.closes w = false)
    (htakes : s.takes w e = false) : (s.occur e).Shows w key v := by
  have hsame : v.after w key s e = v := by
    have hget : (s.occur e).get key = s.get key := by
      rw [hs.get_occur, written?_eq_none hhits hends, Option.getD_none]
    obtain ⟨content, due, closed, ended⟩ := v
    cases hlive : ended with
    | true => simp [View.after, hhits, hends, hcloses, htakes]
    | false =>
      have hread : s.get key = content := h.get_eq hlive
      simp [View.after, hhits, hends, hcloses, htakes, hget, hread]
  exact hsame ▸ h.occur hs hn e

/-- Who looks while another waits before him is not served, and changes nothing. -/
theorem look_of_unanswered (h : s.answer? w (.look w) = none) : s.look w = (s, .waiting) := by
  have hfree : s.isFree w = false := by simpa [answer?] using h
  obtain ⟨hopen, hqueue⟩ := Bool.or_eq_false_iff.mp hfree
  simp [look, hopen, hqueue]

theorem not_hits_of_takes {e : Event} (h : s.takes w e = true) (key : String) :
    e.hits key = false := by
  cases e with
  | set _ _ | setWithVersion _ _ _ | delete _ => cases h
  | closeKey _ | watch _ | look _ | closeWatch _ | dropWatch _ | wait _ | resume _ | leave _ => rfl

/-- Once a signal has been taken, there is none until the key is written again. -/
theorem Shows.not_changed {v : View} (h : s.Shows w key v) (hs : s.Sound) (hn : s.Numbered)
    (hdue : v.due = false) {es : List Event} (hes : ∀ e ∈ es, e.hits key = false) :
    .changed ∉ answersAlong w s es := by
  induction es generalizing s v with
  | nil => exact List.not_mem_nil
  | cons e es ih =>
    rw [answersAlong, List.mem_append, not_or]
    constructor
    · intro hmem
      have hanswer := h.answer hn (Option.mem_toList.mp hmem)
      exact View.signal_of_due_eq_false hdue hanswer.symm
    · refine ih (h.occur hs hn e) (hs.occur e) (hn.occur e) ?_
        fun k hk => hes k (List.mem_cons_of_mem e hk)
      simp [View.after, hes e List.mem_cons_self, hdue]

/-- A write is signalled although the key is closed right after it. -/
theorem Shows.changed_of_write {v : View} (h : s.Shows w key v) (hs : s.Sound) (hn : s.Numbered)
    {e : Event} (he : e.hits key = true) (hopen : v.closed = false) (hlive : v.ended = false) :
    (s.run [e, .closeKey key]).peek w = .changed := by
  have hcloses : e.closes w = false := by
    cases e with
    | set _ _ | setWithVersion _ _ _ | delete _ => rfl
    | closeKey _ | watch _ | look _ | closeWatch _ | dropWatch _ | wait _ | resume _ | leave _ => cases he
  have hwritten := h.occur hs hn e
  have hended := hwritten.occur (hs.occur e) (hn.occur e) (.closeKey key)
  have htakes : (s.occur e).takes w (.closeKey key) = false := rfl
  have hopen' : (Event.closeKey key).closes w = false := rfl
  change ((s.occur e).occur (.closeKey key)).peek w = .changed
  rw [hended.peek_eq]
  simp [View.signal, View.after, he, hopen, hlive, hcloses, htakes, hopen']

theorem answer?_other (key : String) {v : Nat} (hv : v ≠ w) {e : Event}
    (h : (s.answer? v e).isSome = true) :
    s.answer? w e = none ∧ e.hits key = false ∧ e.ends key = false ∧ e.closes w = false := by
  cases e with
  | look i | wait i =>
    obtain ⟨hi, _⟩ : i = v ∧ s.isFree v = true := by
      by_cases hfree : i = v ∧ s.isFree v = true
      · exact hfree
      · simp [answer?, hfree] at h
    refine ⟨if_neg fun hw => hv (hi.symm.trans hw.1), rfl, rfl, rfl⟩
  | resume waiter =>
    have hon : s.waitsOn waiter = some v := by
      by_cases hfirst : s.waitsOn waiter = some v ∧ (s.queueOf v).head? = some waiter
      · exact hfirst.1
      · simp [answer?, hfirst] at h
    refine ⟨if_neg fun hw => hv (Option.some.inj (hon.symm.trans hw.1)), rfl, rfl, rfl⟩
  | set _ _ | setWithVersion _ _ _ | delete _ | closeKey _ | watch _ | closeWatch _ | dropWatch _
  | leave _ => cases h

/-- Nobody waits on a watch before somebody starts to. -/
theorem Tracks.run_unwaited (h : s.Tracks w key fun _ => True) {es : List Event}
    (hes : .wait w ∉ es) : (s.run es).Tracks w key fun _ => True := by
  induction es generalizing s with
  | nil => exact h
  | cons e es ih =>
    refine ih ?_ fun hmem => hes (List.mem_cons_of_mem e hmem)
    by_cases he : e = .look w
    · rw [he]
      exact h.look (Or.inr fun _ => trivial)
    · refine h.occur fun htaken => ?_
      cases e with
      | look i => exact he (congrArg Event.look (Option.some.inj htaken))
      | wait i =>
        obtain rfl := Option.some.inj htaken
        exact hes List.mem_cons_self
      | _ => cases htaken

/-- Whoever asks a watch and is served is told by what happened since the watch was started: it has ended
if it was closed; else there is a change if its cell was written since a change was told last, or if
none was told yet and the key had a value at the start; else it has ended if the key was closed; and else he
waits. Everybody is served who asks while nobody waits before him, and else he waits behind that one. A
change is told once however often the key was written, also when the key is closed after that. What is
read is what was written last before the key was closed. Asking or closing another watch does not
matter. -/
theorem signals_follow_events (past : List Event) (key : String) (es : List Event) :
    let s₀ := empty.run past
    let s := (s₀.watch key).1
    let w := (s₀.watch key).2
    let t := s.run es
    (∀ e signal, t.answer? w e = some signal →
      Meets (.closeWatch w ∈ es) (Due w key s es) (.closeKey key ∈ es) signal) ∧
    (.wait w ∉ es → t.queueOf w = []) ∧
    (t.queueOf w = [] → t.answer? w (.look w) = some (t.look w).2 ∧
      t.answer? w (.wait w) = some (t.wait w).2.2) ∧
    (t.answer? w (.look w) = none → t.look w = (t, .waiting)) ∧
    (∀ e es', t.answer? w e = some .changed → (∀ k ∈ es', k.hits key = false) →
      .changed ∉ answersAlong w (t.occur e) es') ∧
    (∀ e, e.hits key = true → .closeWatch w ∉ es → .closeKey key ∉ es →
      (t.run [e, .closeKey key]).peek w = .changed) ∧
    t.contentOf w = lastWritten key (s₀.get key) s es ∧
    (∀ i e, i ≠ w → (t.answer? i e).isSome = true ∨ e = .closeWatch i →
      (t.occur e).peek w = t.peek w ∧ (t.occur e).contentOf w = t.contentOf w) := by
  intro s₀ s w t
  have hs₀ : s₀.Sound := sound_empty.run past
  have hn₀ : s₀.Numbered := numbered_empty.run past
  have hs : t.Sound := (hs₀.occur (.watch key)).run es
  have hn : t.Numbered := (hn₀.occur (.watch key)).run es
  have hget : s.get key = s₀.get key := (get_congr ⟨rfl, rfl⟩ key).trans (hs₀.get_cell key key)
  obtain ⟨v, hv, htold⟩ : ∃ v, t.Shows w key v ∧ Told w key s es v := told_run hs₀ hn₀ key es
  refine ⟨?_, ?_, ?_, look_of_unanswered, ?_, ?_, ?_, ?_⟩
  · intro e signal he
    rw [hv.answer hn he]
    exact htold.meets
  · intro hwait
    obtain ⟨x, _, hx, _, hqueue, _⟩ := (tracks_watch hs₀.bounded key).run_unwaited hwait
    rw [queueOf, hx]
    exact hqueue
  · intro hqueue
    have hfree : t.isFree w = true := by simp [isFree, hqueue]
    exact ⟨if_pos ⟨rfl, hfree⟩, if_pos ⟨rfl, hfree⟩⟩
  · intro e es' he hes'
    have htakes : t.takes w e = true := decide_eq_true he
    refine (hv.occur hs hn e).not_changed (hs.occur e) (hn.occur e) ?_ hes'
    simp [View.after, not_hits_of_takes htakes, htakes]
  · intro e he hopen hlive
    exact hv.changed_of_write hs hn he (Bool.eq_false_iff.mpr fun h => hopen (htold.closed.mp h))
      (Bool.eq_false_iff.mpr fun h => hlive (htold.ended.mp h))
  · rw [hv.contentOf_eq, htold.content]
    exact congrArg (lastWritten key · s es) hget
  · intro i e hi he
    have hquiet : (t.occur e).Shows w key v := by
      rcases he with he | rfl
      · obtain ⟨hnone, hhits, hends, hcloses⟩ := answer?_other key hi he
        exact hv.occur_quiet hs hn hhits hends hcloses (by simp [takes, hnone])
      · exact hv.occur_quiet hs hn rfl rfl (decide_eq_false hi) rfl
    exact ⟨hquiet.peek_eq.trans hv.peek_eq.symm, hquiet.contentOf_eq.trans hv.contentOf_eq.symm⟩

def smallWrites : List Event :=
  [.set "k" [1], .delete "k", .set "k" [2], .closeKey "k", .set "k" [3]]

/-- The writes before the end are told as one change, and the later value of the key is not read. -/
theorem signals_follow_events_small :
    let s := (empty.watch "k").1
    let t := s.run smallWrites
    Meets (.closeWatch 0 ∈ smallWrites) (Due 0 "k" s smallWrites) (.closeKey "k" ∈ smallWrites)
      .changed ∧
    t.answer? 0 (.look 0) = some .changed ∧
    .changed ∉ answersAlong 0 (t.occur (.look 0)) [.look 0, .wait 0] ∧
    t.contentOf 0 = some ⟨1, [2]⟩ := by
  intro s t
  obtain ⟨hmeets, _, _, _, honce, _, hread, _⟩ := signals_follow_events [] "k" smallWrites
  have hlook : t.answer? 0 (.look 0) = some .changed := by decide
  exact ⟨hmeets (.look 0) _ hlook, hlook, honce (.look 0) _ hlook (by decide), hread.trans (by decide)⟩

end NamespaceTopology.Store
