import NamespaceTopology.Proofs.Node.Schedules
import NamespaceTopology.Proofs.Store.Watchers

set_option autoImplicit false

/-!
What a run makes of the store. Whatever a store keeps by itself it keeps in a node, and keys hold what the
writes from outside alone have made of them: no task, no registry and no call ever writes.
-/
namespace NamespaceTopology

namespace Node

variable {n : Node}

/-- Whatever every event of a store keeps, every event of a node keeps. -/
theorem store_occur_of {P : Store → Prop} (hP : ∀ s e, P s → P (s.occur e)) (hn : P n.store)
    (e : Event) : P (n.occur e).store := by
  cases hdirect : e.isDirect with
  | false =>
    obtain ⟨m, hm, hend⟩ := becomes_occur hdirect n
    have hstore : P m.store := by
      refine hm.keep (P := fun k => P k.store) (fun k k' hc hk => ?_) hn
      rcases hc.store_cases with hsame | ⟨e, _, hstore⟩
      · rw [hsame]
        exact hk
      · rw [hstore]
        exact hP k.store e hk
    rcases hend with hsame | ⟨f, hf⟩
    · have hlast : (n.occur e).store = m.store := congrArg Inner.store hsame
      rw [hlast]
      exact hstore
    · rw [hf.store]
      exact hstore
  | true =>
    cases e with
    | store e => exact hP n.store e hn
    | closeOnRead r => exact hn
    | register exposition c =>
      have hsame : (n.occur (.register exposition c)).store = n.store :=
        congrArg Core.store (core_register exposition c n)
      rw [hsame]
      exact hn
    | _ => cases hdirect

theorem store_run_of {P : Store → Prop} (hP : ∀ s e, P s → P (s.occur e)) (hn : P n.store)
    (es : List Event) : P (n.run es).store := by
  induction es generalizing n with
  | nil => exact hn
  | cons e es ih => exact ih (store_occur_of hP hn e)

theorem placed_run (hsound : n.store.Sound) (hplaced : n.store.Placed) (es : List Event) :
    (n.run es).store.Placed := by
  have hstep (s : Store) (e : Store.Event) (hs : s.Sound ∧ s.Placed) :
      (s.occur e).Sound ∧ (s.occur e).Placed :=
    ⟨hs.1.occur e, hs.2.occur hs.1.bounded e⟩
  exact (store_run_of hstep ⟨hsound, hplaced⟩ es).2

/-! ### What keys hold -/

def Event.write? : Event → Option Store.Event
  | .store e => if e.writes then some e else none
  | _ => none

/-- Keys hold what a store would hold to which nothing but the outside writes happened. -/
theorem get_run {s : Store} (hn : n.store.Sound) (hs : s.Sound)
    (h : ∀ key, n.store.get key = s.get key) (es : List Event) (key : String) :
    (n.run es).store.get key = ((es.filterMap Event.write?).foldl Store.occur s).get key := by
  induction es generalizing n s with
  | nil => exact h key
  | cons e es ih =>
    obtain ⟨hsound, hget, _⟩ := get_occur hn e
    cases hwrite : e.write? with
    | none =>
      rw [List.filterMap_cons_none hwrite]
      refine ih hsound hs fun key => ?_
      have hnone : n.written? key e = none := by
        cases e with
        | store e =>
          refine Store.written?_of_not_writes ?_ key n.store
          simpa [Event.write?] using hwrite
        | _ => rfl
      rw [hget, hnone]
      exact h key
    | some write =>
      rw [List.filterMap_cons_some hwrite]
      refine ih hsound (hs.occur write) fun key => ?_
      obtain rfl : e = .store write := by
        cases e with
        | store e =>
          simp only [Event.write?] at hwrite
          split at hwrite
          · rw [Option.some.inj hwrite]
          · cases hwrite
        | _ => cases hwrite
      rw [hget, hs.get_occur, ← h key]
      exact congrArg (Option.getD · _) (Store.written?_congr (h key) write)

end Node

end NamespaceTopology
