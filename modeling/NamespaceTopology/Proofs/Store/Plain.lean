import Mathlib.Data.List.Induction
import NamespaceTopology.Proofs.Store.Versions
import NamespaceTopology.Proofs.Store.Watchers

set_option autoImplicit false

/-!
A store against a plain map of versioned values. The map has no cells and knows of each watch only the
key that it counts for. Whatever happens to a store, its keys hold what the map holds, and as many watches
count for a key as the map knows.
-/
namespace NamespaceTopology.Store

/-- A plain map of versioned values, and for each watch in the order of their start the key that it counts
for. -/
structure Plain where
  value : String → Option Value
  counted : List (Option String)

namespace Plain

def empty : Plain := ⟨fun _ => none, []⟩

/-- One for a key that is absent, and else the version after that of its value, up to the greatest. -/
def successor : Option Value → Int64
  | none => 1
  | some v => Int64.ofInt (min (v.version.toInt + 1) maxInt64)

def put (key : String) (content : Option Value) (p : Plain) : Plain :=
  { p with value := fun k => if k = key then content else p.value k }

/-- Writing concerns one key, closing a key also the watches that count for it. A watch counts from its
start until it is dropped or its key is closed. -/
def occur (p : Plain) : Event → Plain
  | .set key data => p.put key (some ⟨successor (p.value key), data⟩)
  | .setWithVersion key version data => p.put key (some ⟨version, data⟩)
  | .delete key => p.put key none
  | .closeKey key =>
    { p.put key none with counted := p.counted.map fun k => if k = some key then none else k }
  | .watch key => { p with counted := p.counted ++ [some key] }
  | .dropWatch w => { p with counted := p.counted.modify w fun _ => none }
  | .look _ | .closeWatch _ | .wait _ | .resume _ | .leave _ => p

def run (p : Plain) (es : List Event) : Plain := es.foldl occur p

end Plain

def Event.key? : Event → Option String
  | .set key _ | .setWithVersion key _ _ | .delete key | .closeKey key | .watch key => some key
  | .look _ | .closeWatch _ | .dropWatch _ | .wait _ | .resume _ | .leave _ => none

def Event.starts : Event → Bool
  | .watch _ => true
  | _ => false

/-- Watch `w` was started on the key, and neither was it dropped nor was the key closed after that. -/
def Counts (key : String) (w : Nat) (es : List Event) : Prop :=
  ∃ before after, es = before ++ .watch key :: after ∧ before.countP Event.starts = w ∧
    .closeKey key ∉ after ∧ .dropWatch w ∉ after

/-! ### The watches that count for a key -/

def standing (key : String) (s : Store) : List Bool :=
  s.seats.map fun p => s.cell? key = some p.1 && !p.2

theorem watcherCount_eq_count (key : String) (s : Store) :
    s.watcherCount key = (s.standing key).count true := by
  rw [watcherCount_eq, standing, List.count, List.countP_map]
  cases s.cell? key with
  | none =>
    rw [eq_comm, List.countP_eq_zero]
    simp
  | some c =>
    refine List.countP_congr fun p _ => ?_
    simp [eq_comm (a := c)]

theorem standing_congr {s s' : Store} {key : String} (hcell : s'.cell? key = s.cell? key)
    (hseats : s'.seats = s.seats) : s'.standing key = s.standing key := by
  rw [standing, standing, hcell, hseats]

/-- A cell that has just been made has no watch. -/
theorem Placed.standing_cell {s : Store} (hs : s.Placed) (key key' : String) :
    (s.seats.map fun p => (s.cell key').1.cell? key = some p.1 && !p.2) = s.standing key := by
  refine List.map_congr_left fun p hp => ?_
  by_cases hkey : key = key'
  · subst hkey
    cases h : s.cell? key with
    | some c => rw [cell_of_some h, h]
    | none =>
      obtain ⟨x, hx, rfl⟩ := List.mem_map.mp hp
      have hlt : x.cell < s.cells.length := hs x.cell (List.mem_map_of_mem hx)
      rw [cell?_cell, cell_of_none h]
      simp [Nat.ne_of_gt hlt]
  · rw [cell?_cell_other hkey]

theorem Placed.standing_write {s : Store} (hs : s.Placed) (key key' : String) (content : Option Value) :
    (s.write key' content).standing key = s.standing key := by
  rw [standing, seats_write]
  exact hs.standing_cell key key'

theorem standing_closeKey_self (key : String) (s : Store) :
    (s.closeKey key).standing key = s.seats.map fun _ => false := by
  rw [standing, seats_closeKey, cell?_closeKey_self]
  simp

theorem standing_closeKey_other {key key' : String} (hne : key ≠ key') (s : Store) :
    (s.closeKey key').standing key = s.standing key :=
  standing_congr (cell?_closeKey_other hne s) (seats_closeKey key' s)

theorem Placed.standing_watch {s : Store} (hs : s.Placed) (hsound : s.Sound) (key key' : String) :
    (s.watch key').1.standing key = s.standing key ++ [decide (key' = key)] := by
  have hcell : (s.watch key').1.cell? key = (s.cell key').1.cell? key := rfl
  rw [standing, seats_watch, hcell, List.map_append, hs.standing_cell]
  congr 1
  simp only [List.map_singleton, Bool.not_false, Bool.and_true, List.cons.injEq, and_true,
    decide_eq_decide]
  constructor
  · intro h
    exact ((hsound.cell key').distinct key key' _ h (cell?_cell key' s)).symm
  · rintro rfl
    exact cell?_cell key' s

theorem standing_dropWatch (key : String) (w : Nat) (s : Store) :
    (s.dropWatch w).standing key = (s.standing key).modify w fun _ => false := by
  have hcell : (s.dropWatch w).cell? key = s.cell? key := rfl
  rw [standing, seats_dropWatch, hcell, standing]
  refine List.ext_getElem? fun j => ?_
  simp only [List.getElem?_map, List.getElem?_modify]
  cases s.seats[j]? with
  | none => rfl
  | some p =>
    by_cases hj : w = j <;> simp [hj]

/-! ### Step by step -/

/-- A store holds what the map holds, and for each key the same watches count. -/
structure Refines (p : Plain) (s : Store) : Prop where
  sound : s.Sound
  placed : s.Placed
  value : ∀ key, s.get key = p.value key
  counted : ∀ key, s.standing key = p.counted.map fun k => decide (k = some key)

theorem refines_empty : Refines .empty empty :=
  ⟨sound_empty, placed_empty, fun _ => rfl, fun _ => rfl⟩

theorem nextVersion_eq_successor (content : Option Value) :
    nextVersion content = Plain.successor content := by
  cases content with
  | none => rfl
  | some v =>
    rw [Plain.successor, ← toInt_nextVersion, Int64.ofInt_toInt]

variable {p : Plain} {s : Store}

theorem Refines.put (h : Refines p s) (key : String) (content : Option Value) :
    Refines (p.put key content) (s.write key content) where
  sound := h.sound.write key content
  placed := h.placed.write key content
  value k := by
    rw [h.sound.get_written k key content, Plain.put, h.value k]
    by_cases hk : key = k
    · simp [hk]
    · simp [hk, Ne.symm hk]
  counted k := (h.placed.standing_write k key content).trans (h.counted k)

theorem Refines.closeKey (h : Refines p s) (key : String) :
    Refines (p.occur (.closeKey key)) (s.closeKey key) where
  sound := h.sound.closeKey key
  placed := h.placed.closeKey key
  value k := by
    have hget := h.sound.get_occur k (.closeKey key)
    rw [Event.written?, h.value k] at hget
    refine hget.trans ?_
    by_cases hk : key = k
    · simp [Plain.occur, Plain.put, hk]
    · simp [Plain.occur, Plain.put, hk, Ne.symm hk]
  counted k := by
    have hold := h.counted k
    by_cases hk : k = key
    · subst hk
      have hlength : s.seats.length = p.counted.length := by
        simpa [standing] using congrArg List.length hold
      rw [standing_closeKey_self, Plain.occur, List.map_map, List.map_const', hlength,
        ← List.map_const']
      refine List.map_congr_left fun c _ => ?_
      by_cases hc : c = some k <;> simp [hc]
    · rw [standing_closeKey_other hk, hold, Plain.occur, List.map_map]
      refine List.map_congr_left fun c _ => ?_
      by_cases hc : c = some key
      · simp [hc, Ne.symm hk]
      · simp [hc]

theorem Refines.watch (h : Refines p s) (key : String) :
    Refines (p.occur (.watch key)) (s.watch key).1 where
  sound := h.sound.occur (.watch key)
  placed := h.placed.watch h.sound.bounded key
  value k := (h.sound.get_occur k (.watch key)).trans (h.value k)
  counted k := by
    rw [h.placed.standing_watch h.sound, h.counted k, Plain.occur, List.map_append]
    simp

theorem Refines.dropWatch (h : Refines p s) (w : Nat) :
    Refines (p.occur (.dropWatch w)) (s.dropWatch w) where
  sound := h.sound.occur (.dropWatch w)
  placed := h.placed.occur h.sound.bounded (.dropWatch w)
  value k := (h.sound.get_occur k (.dropWatch w)).trans (h.value k)
  counted k := by
    rw [standing_dropWatch, h.counted k, Plain.occur]
    refine List.ext_getElem? fun j => ?_
    simp only [List.getElem?_map, List.getElem?_modify]
    cases p.counted[j]? with
    | none => rfl
    | some c =>
      by_cases hj : w = j <;> simp [hj]

/-- Those who ask a watch or stop asking, and those who close one, change nothing that the map knows. -/
theorem Refines.keep (h : Refines p s) {e : Event} (hkey : e.key? = none) (hdrop : ∀ w, e ≠ .dropWatch w) :
    Refines p (s.occur e) := by
  obtain ⟨hwrites, hkeys, hseats⟩ :
      e.writes = false ∧ (s.occur e).keys = s.keys ∧ (s.occur e).seats = s.seats := by
    cases e with
    | look w => exact ⟨rfl, (cells_look w s).1, seats_look w s⟩
    | closeWatch w => exact ⟨rfl, rfl, seats_closeWatch w s⟩
    | wait w => exact ⟨rfl, (cells_wait w s).1, seats_wait w s⟩
    | resume waiter => exact ⟨rfl, (cells_resume waiter s).1, seats_resume waiter s⟩
    | leave waiter => exact ⟨rfl, rfl, seats_leave waiter s⟩
    | dropWatch w => exact absurd rfl (hdrop w)
    | set _ _ | setWithVersion _ _ _ | delete _ | closeKey _ | watch _ => cases hkey
  refine ⟨h.sound.occur e, h.placed.occur h.sound.bounded e, fun key => ?_, fun key => ?_⟩
  · rw [h.sound.get_occur, written?_of_not_writes hwrites]
    exact h.value key
  · rw [standing_congr (congrArg (List.lookup key) hkeys) hseats]
    exact h.counted key

theorem Refines.occur (h : Refines p s) (e : Event) : Refines (p.occur e) (s.occur e) := by
  cases e with
  | set key data =>
    have hput := h.put key (some ⟨nextVersion (s.get key), data⟩)
    rw [nextVersion_eq_successor, h.value key] at hput
    rw [Store.occur, Store.set, nextVersion_eq_successor, h.value key]
    exact hput
  | setWithVersion key version data => exact h.put key _
  | delete key => exact h.put key none
  | closeKey key => exact h.closeKey key
  | watch key => exact h.watch key
  | dropWatch w => exact h.dropWatch w
  | look _ | closeWatch _ | wait _ | resume _ | leave _ => exact h.keep rfl (by simp)

theorem Refines.run (h : Refines p s) (es : List Event) : Refines (p.run es) (s.run es) := by
  induction es generalizing p s with
  | nil => exact h
  | cons e es ih => exact ih (h.occur e)

theorem Refines.watcherCount_eq (h : Refines p s) (key : String) :
    s.watcherCount key = p.counted.count (some key) := by
  rw [watcherCount_eq_count, h.counted key, List.count, List.countP_map, List.count]
  refine List.countP_congr fun c _ => ?_
  simp

/-! ### Counting, told from the events -/

theorem counts_concat {key : String} {w : Nat} {es : List Event} {e : Event} :
    Counts key w (es ++ [e]) ↔ (e = .watch key ∧ es.countP Event.starts = w) ∨
      (Counts key w es ∧ e ≠ .closeKey key ∧ e ≠ .dropWatch w) := by
  constructor
  · rintro ⟨before, after, hes, hw, hclose, hdrop⟩
    rcases List.eq_nil_or_concat after with rfl | ⟨after, last, rfl⟩
    · obtain ⟨rfl, hsame⟩ := List.append_inj' hes rfl
      exact Or.inl ⟨(List.cons.inj hsame).1, hw⟩
    · have hsplit : es ++ [e] = (before ++ .watch key :: after) ++ [last] := by simpa using hes
      obtain ⟨rfl, hsame⟩ := List.append_inj' hsplit rfl
      obtain rfl := (List.cons.inj hsame).1
      rw [List.concat_eq_append, mem_concat_iff, not_or] at hclose hdrop
      exact Or.inr ⟨⟨before, after, rfl, hw, hclose.1, hdrop.1⟩, hclose.2, hdrop.2⟩
  · rintro (⟨rfl, hw⟩ | ⟨⟨before, after, rfl, hw, hclose, hdrop⟩, hcloses, hdrops⟩)
    · exact ⟨es, [], rfl, hw, List.not_mem_nil, List.not_mem_nil⟩
    · refine ⟨before, after ++ [e], by simp, hw, ?_, ?_⟩
      · rw [mem_concat_iff, not_or]
        exact ⟨hclose, hcloses⟩
      · rw [mem_concat_iff, not_or]
        exact ⟨hdrop, hdrops⟩

theorem length_counted (es : List Event) :
    (Plain.empty.run es).counted.length = es.countP Event.starts := by
  induction es using List.reverseRecOn with
  | nil => rfl
  | append_singleton es e ih =>
    rw [List.countP_append, ← ih, Plain.run, List.foldl_append]
    cases e <;> simp [Plain.run, Plain.occur, Plain.put, Event.starts]

/-- The map knows the watches that were started on the key and since then neither dropped nor closed with
it. -/
theorem counted_iff (key : String) (w : Nat) (es : List Event) :
    (Plain.empty.run es).counted[w]? = some (some key) ↔ Counts key w es := by
  induction es using List.reverseRecOn with
  | nil => simp [Plain.run, Plain.empty, Counts]
  | append_singleton es e ih =>
    have hrun : Plain.empty.run (es ++ [e]) = (Plain.empty.run es).occur e := List.foldl_append
    have hlength := length_counted es
    rw [counts_concat, ← ih, hrun]
    generalize Plain.empty.run es = p at hlength
    cases e with
    | watch k =>
      rw [Plain.occur, ← hlength]
      rcases Nat.lt_trichotomy w p.counted.length with hlt | rfl | hgt
      · simp [List.getElem?_append_left hlt, Nat.ne_of_gt hlt]
      · simp
      · have hout : p.counted[w]? = none := List.getElem?_eq_none (Nat.le_of_lt hgt)
        have hout' : (p.counted ++ [some k])[w]? = none := by
          rw [List.getElem?_eq_none_iff, List.length_append]
          exact hgt
        simp [hout, hout', Nat.ne_of_lt hgt]
    | closeKey k =>
      simp only [Plain.occur, List.getElem?_map, Option.map_eq_some_iff]
      constructor
      · rintro ⟨c, hc, hkey⟩
        by_cases hk : c = some k
        · rw [if_pos hk] at hkey
          cases hkey
        · rw [if_neg hk] at hkey
          subst hkey
          refine Or.inr ⟨hc, fun h => hk ?_, nofun⟩
          rw [Event.closeKey.inj h]
      · rintro (⟨h, _⟩ | ⟨hc, hclose, _⟩)
        · cases h
        · refine ⟨some key, hc, if_neg fun h => hclose ?_⟩
          rw [Option.some.inj h]
    | dropWatch i =>
      simp only [Plain.occur, List.getElem?_modify]
      by_cases hi : i = w
      · subst hi
        cases p.counted[i]? <;> simp
      · simp [hi]
    | _ => simp [Plain.occur, Plain.put]

/-- What is about another key, or about no key at all, changes neither the content of a key nor how many
watches count for it, unless a watch is dropped. -/
theorem Refines.other (h : Refines p s) {e : Event} {key : String} (hkey : e.key? ≠ some key) :
    (s.occur e).get key = s.get key ∧
      ((∀ w, e ≠ .dropWatch w) → (s.occur e).watcherCount key = s.watcherCount key) := by
  have hnext := h.occur e
  rw [hnext.value, h.value, hnext.watcherCount_eq, h.watcherCount_eq]
  cases e with
  | set k _ | setWithVersion k _ _ | delete k =>
    have hk : key ≠ k := fun heq => hkey (congrArg some heq.symm)
    exact ⟨if_neg hk, fun _ => rfl⟩
  | closeKey k =>
    have hk : key ≠ k := fun heq => hkey (congrArg some heq.symm)
    refine ⟨if_neg hk, fun _ => ?_⟩
    simp only [Plain.occur, List.count, List.countP_map]
    refine List.countP_congr fun c _ => ?_
    by_cases hc : c = some k
    · simp [hc, Ne.symm hk]
    · simp [hc]
  | watch k =>
    have hk : k ≠ key := fun heq => hkey (congrArg some heq)
    exact ⟨rfl, fun _ => by simp [Plain.occur, hk]⟩
  | dropWatch w => exact ⟨rfl, fun hdrop => absurd rfl (hdrop w)⟩
  | look _ | closeWatch _ | wait _ | resume _ | leave _ => exact ⟨rfl, fun _ => rfl⟩

/-- Whatever happens to a store, its keys hold what a plain map of versioned values holds, which knows
neither cells nor signals. A value is stored under the version that the map tells. As many watches count
for a key as were started on it and since then neither dropped nor closed with the key. Nothing that is
about one key changes another, and neither asking or closing a watch nor giving up asking changes what a
key holds or which watches count. -/
theorem store_refines_plain (es : List Event) :
    let s := empty.run es
    let p := Plain.empty.run es
    (∀ key, s.get key = p.value key) ∧
    (∀ key data, (s.set key data).2 = Plain.successor (p.value key)) ∧
    (∀ key, s.watcherCount key = p.counted.count (some key)) ∧
    (∀ key w, p.counted[w]? = some (some key) ↔ Counts key w es) ∧
    (∀ e key, e.key? ≠ some key → (s.occur e).get key = s.get key ∧
      ((∀ w, e ≠ .dropWatch w) → (s.occur e).watcherCount key = s.watcherCount key)) := by
  intro s p
  have h : Refines p s := refines_empty.run es
  refine ⟨h.value, ?_, h.watcherCount_eq, fun key w => counted_iff key w es, fun e key => h.other⟩
  intro key data
  rw [← h.value key, ← nextVersion_eq_successor]
  rfl

/-- Of four watches one was started before the key was closed and one was dropped. -/
example : (empty.run [.watch "k", .set "k" [1], .closeKey "k", .watch "k", .watch "k", .closeWatch 1,
    .watch "k", .dropWatch 2]).watcherCount "k" = 2 := by decide

end NamespaceTopology.Store
