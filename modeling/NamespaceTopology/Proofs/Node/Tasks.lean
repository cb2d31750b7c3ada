import NamespaceTopology.Proofs.Node.Changes

set_option autoImplicit false

/-!
The two tasks of a registry. Each is there until it has finished, so once the registry is closed it has
a turn to take before everything can come to rest.
-/
namespace NamespaceTopology.Node

theorem Change.task_cases {C : Nat → Prop} {n n' : Node} (h : Change C n n') {t : Task}
    (ht : t ∈ n.tasks) : t ∈ n'.tasks ∨ n.Finished t := by
  cases h with
  | outside h =>
    have htasks : n'.tasks = n.tasks := congrArg Inner.tasks h
    exact Or.inl (htasks ▸ ht)
  | store _ | follower _ _ | close _ _ _ _ | withdraw _ | forget _ _ => exact Or.inl ht
  | addTask u => exact Or.inl (List.mem_append_left _ ht)
  | metrics h => exact Or.inl (h.tasks.symm ▸ ht)
  | @endTask u h =>
    by_cases hu : t = u
    · exact Or.inr (hu ▸ h)
    · exact Or.inl (List.mem_filter.mpr ⟨ht, by simpa using hu⟩)

structure Tasked (n : Node) (r : Nat) (f : Follower) : Prop where
  loop : f.loopDone = false → .updates r ∈ n.tasks
  sampler : f.samplerDone = false → .samples r ∈ n.tasks

def Staffed (n : Node) : Prop := ∀ r f, n.followers[r]? = some f → n.Tasked r f

theorem staffed_start : start.Staffed := by
  intro r f hf
  simp [start] at hf

theorem Staffed.change {C : Nat → Prop} {n n' : Node} (hn : n.Staffed) (h : Change C n n') :
    n'.Staffed := by
  intro r f' hf'
  have hlt : r < n.followers.length := h.length_followers ▸ (List.getElem?_eq_some_iff.mp hf').1
  have hf := List.getElem?_eq_getElem hlt
  obtain ⟨g, hg, hpersists⟩ := h.persists hf
  obtain rfl := Option.some.inj (hf'.symm.trans hg)
  have htasked := hn r _ hf
  -- A task that is gone had finished, and so it has now.
  constructor
  · intro hloop
    have hbefore : n.followers[r].loopDone = false :=
      Bool.eq_false_iff.mpr fun hdone => by simp [hpersists.loopDone hdone] at hloop
    refine (h.task_cases (htasked.loop hbefore)).resolve_right fun hfinished => ?_
    rw [hfinished _ hf] at hbefore
    cases hbefore
  · intro hsampler
    have hbefore : n.followers[r].samplerDone = false :=
      Bool.eq_false_iff.mpr fun hdone => by simp [hpersists.samplerDone hdone] at hsampler
    refine (h.task_cases (htasked.sampler hbefore)).resolve_right fun hfinished => ?_
    rw [hfinished _ hf] at hbefore
    cases hbefore

theorem Staffed.founds {n n' : Node} (hn : n.Staffed) {f : Follower} (h : Founds n n' f) :
    n'.Staffed := by
  intro r g hg
  rw [h.followers, List.getElem?_append] at hg
  split at hg
  · have htasked := hn r g hg
    exact ⟨fun hloop => h.tasks _ (htasked.loop hloop) (by simp),
      fun hsampler => h.tasks _ (htasked.sampler hsampler) (by simp)⟩
  next hlt =>
    have hr : r = n.followers.length := by
      have hlast := (List.getElem?_eq_some_iff.mp hg).1
      simp only [List.length_singleton] at hlast
      omega
    subst hr
    exact ⟨fun _ => h.loop, fun _ => h.sampler⟩

theorem Staffed.congr {n n' : Node} (hn : n.Staffed) (hfollowers : n'.followers = n.followers)
    (htasks : n'.tasks = n.tasks) : n'.Staffed := by
  intro r f hf
  obtain ⟨hloop, hsampler⟩ := hn r f (hfollowers ▸ hf)
  exact ⟨htasks ▸ hloop, htasks ▸ hsampler⟩

theorem Staffed.occur {n : Node} (hn : n.Staffed) (e : Event) : (n.occur e).Staffed := by
  cases hdirect : e.isDirect with
  | false =>
    obtain ⟨m, hm, hn'⟩ := becomes_occur hdirect n
    have hm : m.Staffed := hm.keep (fun _ _ hc hk => hk.change hc) hn
    rcases hn' with hsame | ⟨f, hf⟩
    · obtain ⟨_, _, _, hfollowers, htasks, _⟩ := Inner.mk.inj hsame
      exact hm.congr hfollowers htasks
    · exact hm.founds hf
  | true =>
    cases e with
    | store _ | closeOnRead _ => exact hn.congr rfl rfl
    | register exposition c =>
      obtain ⟨_, _, _, hfollowers, htasks, _⟩ := Inner.mk.inj (inner_register exposition c n)
      exact hn.congr hfollowers htasks
    | _ => cases hdirect

theorem Staffed.run {n : Node} (hn : n.Staffed) (es : List Event) : (n.run es).Staffed := by
  induction es generalizing n with
  | nil => exact hn
  | cons e es ih => exact ih (hn.occur e)

theorem Staffed.finished {n : Node} (hn : n.Staffed) {r : Nat} {f : Follower}
    (hf : n.followers[r]? = some f) (hc : f.registry.closed = true)
    (hidle : ∀ t ∈ n.tasks, n.isReady t = false) : f.loopDone = true ∧ f.samplerDone = true := by
  have htasked := hn r f hf
  constructor
  · refine Bool.not_eq_false _ |>.mp fun hloop => ?_
    have hready := hidle _ (htasked.loop hloop)
    simp [isReady, hf, hc, hloop] at hready
  · refine Bool.not_eq_false _ |>.mp fun hsampler => ?_
    have hready := hidle _ (htasked.sampler hsampler)
    simp [isReady, hf, hc, hsampler] at hready

end NamespaceTopology.Node
