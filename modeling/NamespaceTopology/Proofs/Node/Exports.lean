import NamespaceTopology.Proofs.Node.Changes

set_option autoImplicit false

/-!
What the expositions of a node show of its registries: the instruments of each at the place where it
shows them and as long as it is open, and nothing else that it owns.
-/
namespace NamespaceTopology.Node

structure Accounted (n : Node) (f : Follower) : Prop where
  below : f.registry.instruments.owner < n.nextOwner
  exports (name : String) (c : Collector) : (n.exposition name).Shows c →
    c.source.owner? = some f.registry.instruments.owner →
    name = f.exposition ∧ f.registry.instruments.Exports c
  withdrawn : f.registry.closed = true → ∀ c, ¬ f.registry.instruments.Exports c

/-- Whatever is shown has an owner who is known, if it has one, and every registry is accounted for. -/
structure Exporting (n : Node) : Prop where
  owned (name : String) (c : Collector) (o : Nat) : (n.exposition name).Shows c →
    c.source.owner? = some o → o < n.nextOwner
  accounted (r : Nat) (f : Follower) : n.followers[r]? = some f → n.Accounted f

theorem exporting_start : start.Exporting where
  owned name c o hc := absurd hc List.not_mem_nil
  accounted r f hf := by simp [start] at hf

theorem Accounted.congr {n n' : Node} {f : Follower} (h : n.Accounted f)
    (hexpositions : n'.expositions = n.expositions) (howner : n'.nextOwner = n.nextOwner) :
    n'.Accounted f := by
  refine ⟨howner ▸ h.below, fun name c hc => ?_, h.withdrawn⟩
  rw [exposition_congr hexpositions] at hc
  exact h.exports name c hc

theorem Exporting.congr {n n' : Node} (hn : n.Exporting) (hexpositions : n'.expositions = n.expositions)
    (howner : n'.nextOwner = n.nextOwner) (hfollowers : n'.followers = n.followers) :
    n'.Exporting := by
  refine ⟨fun name c o hc => ?_, fun r f hf => ?_⟩
  · rw [exposition_congr hexpositions] at hc
    rw [howner]
    exact hn.owned name c o hc
  · rw [hfollowers] at hf
    exact (hn.accounted r f hf).congr hexpositions howner

theorem Accounted.kept {n : Node} {f f' : Follower} (h : n.Accounted f) (hkept : Kept f f') :
    n.Accounted f' := by
  have hsame : Instruments.Same f.registry.instruments f'.registry.instruments := by
    rcases hkept.registry with hsame | ⟨m, hm, hafter⟩
    · rw [hsame]
      exact ⟨rfl, rfl, rfl, rfl⟩
    · rw [hafter]
      exact Dynamic.same_after hm
  refine ⟨hsame.owner ▸ h.below, fun name c hc howner => ?_, fun hclosed c => ?_⟩
  · rw [hsame.owner] at howner
    rw [hkept.exposition, hsame.exports_iff]
    exact h.exports name c hc howner
  · rw [hsame.exports_iff]
    exact h.withdrawn (hkept.closed ▸ hclosed) c

theorem Exporting.measures {n n' : Node} (hn : n.Exporting) (h : Measures n n') : n'.Exporting := by
  refine ⟨fun name c o hc howner => ?_, fun r f hf => ?_⟩
  · rcases h.shows name c hc with hold | hnew
    · exact Nat.lt_of_lt_of_le (hn.owned name c o hold howner) h.owners
    · exact (hnew o howner).2
  · rw [h.followers] at hf
    have haccounted := hn.accounted r f hf
    refine ⟨Nat.lt_of_lt_of_le haccounted.below h.owners, fun name c hc howner => ?_,
      haccounted.withdrawn⟩
    rcases h.shows name c hc with hold | hnew
    · exact haccounted.exports name c hold howner
    · exact absurd (hnew _ howner).1 (Nat.not_le.mpr haccounted.below)

theorem Accounted.setExposition {n : Node} {f : Follower} (h : n.Accounted f) {name : String}
    {e : Exposition} (he : ∀ c, e.Shows c → (n.exposition name).Shows c) :
    (n.setExposition name e).Accounted f := by
  refine ⟨h.below, fun name' c hc howner => ?_, h.withdrawn⟩
  rcases shows_setExposition hc with ⟨rfl, hshows⟩ | hold
  · exact h.exports _ c (he c hshows) howner
  · exact h.exports name' c hold howner

/-- Somebody takes the metrics of a registry back, and may close it at the same time. -/
theorem Exporting.withdraw {n : Node} (hn : n.Exporting) {r : Nat} (due : Option Nat) {f : Follower}
    {d : Dynamic} {e : Exposition} (hf : n.followers[r]? = some f)
    (howner : d.instruments.owner = f.registry.instruments.owner)
    (hnothing : ∀ c, ¬ d.instruments.Exports c)
    (hless : ∀ c, e.Shows c → (n.exposition f.exposition).Shows c ∧ ¬ f.registry.instruments.Exports c) :
    Exporting (({ n with closeOnRead := due }.modifyFollower r fun f =>
      { f with registry := d }).setExposition f.exposition e) := by
  refine ⟨fun name c o hc => ?_, fun s g hg => ?_⟩
  · rcases shows_setExposition hc with ⟨rfl, hshows⟩ | hold
    · exact hn.owned _ c o (hless c hshows).1
    · exact hn.owned name c o hold
  · by_cases hs : r = s
    · subst hs
      obtain rfl : { f with registry := d } = g := by
        simpa [Node.setExposition, modifyFollower, hf] using hg
      have haccounted := hn.accounted r f hf
      refine ⟨howner ▸ haccounted.below, fun name c hc hown => ?_, fun _ => hnothing⟩
      -- What the registry owns was shown where it shows it, and has been taken back there.
      rw [howner] at hown
      rcases shows_setExposition hc with ⟨rfl, hshows⟩ | hold
      · obtain ⟨hold, hnot⟩ := hless c hshows
        exact absurd (haccounted.exports _ c hold hown).2 hnot
      · obtain ⟨rfl, hexports⟩ := haccounted.exports name c hold hown
        rw [exposition_setExposition, if_pos rfl] at hc
        exact absurd hexports (hless c hc).2
    · have hg : n.followers[s]? = some g := by
        change (n.followers.modify r _)[s]? = some g at hg
        rwa [List.getElem?_modify_ne _ _ hs] at hg
      exact ((hn.accounted s g hg).setExposition fun c hc => (hless c hc).1).congr rfl rfl

theorem Exporting.change {C : Nat → Prop} {n n' : Node} (hn : n.Exporting) (h : Change C n n') :
    n'.Exporting := by
  cases h with
  | outside h =>
    obtain ⟨_, hexpositions, howner, hfollowers, _⟩ := Inner.mk.inj h
    exact hn.congr hexpositions howner hfollowers
  | store _ | forget _ _ | addTask _ | endTask _ => exact hn.congr rfl rfl rfl
  | metrics h => exact hn.measures h
  | close due hf hclose _ =>
    obtain ⟨howner, hnothing, hless⟩ := Dynamic.withdrawn_of_close hclose
    exact hn.withdraw due hf howner hnothing hless
  | @withdraw r f hf =>
    obtain ⟨howner, hnothing, hless⟩ :=
      f.registry.withdrawn_of_withdraw (n.exposition f.exposition)
    exact hn.withdraw n.closeOnRead hf howner hnothing hless
  | @follower r g h =>
    refine ⟨hn.owned, fun s f' hf' => ?_⟩
    by_cases hs : r = s
    · subst hs
      obtain ⟨f, hf, rfl⟩ : ∃ f, n.followers[r]? = some f ∧ g f = f' := by
        simpa [modifyFollower] using hf'
      exact ((hn.accounted r f hf).kept (h f hf)).congr rfl rfl
    · rw [modifyFollower, List.getElem?_modify_ne _ _ hs] at hf'
      exact (hn.accounted s f' hf').congr rfl rfl

theorem Exporting.founds {n n' : Node} (hn : n.Exporting) {f : Follower} (h : Founds n n' f) :
    n'.Exporting := by
  have hlater : n.nextOwner ≤ n'.nextOwner := by
    rw [h.nextOwner]
    exact Nat.le_succ _
  have hself : f.registry.instruments.owner < n'.nextOwner := by
    rw [h.owner, h.nextOwner]
    exact Nat.lt_succ_self _
  refine ⟨fun name c o hc howner => ?_, fun r g hg => ?_⟩
  · rcases h.shows name c hc with hold | ⟨_, hexports⟩
    · exact Nat.lt_of_lt_of_le (hn.owned name c o hold howner) hlater
    · rw [Instruments.owner?_of_exports hexports] at howner
      exact Option.some.inj howner ▸ hself
  · rw [h.followers, List.getElem?_append] at hg
    split at hg
    · have haccounted := hn.accounted r g hg
      refine ⟨Nat.lt_of_lt_of_le haccounted.below hlater, fun name c hc howner => ?_,
        haccounted.withdrawn⟩
      rcases h.shows name c hc with hold | ⟨_, hexports⟩
      · exact haccounted.exports name c hold howner
      · rw [Instruments.owner?_of_exports hexports, h.owner] at howner
        exact absurd (Option.some.inj howner) (Nat.ne_of_gt haccounted.below)
    · obtain rfl := List.mem_singleton.mp (List.mem_of_getElem? hg)
      refine ⟨hself, fun name c hc howner => ?_, fun hclosed => ?_⟩
      · rcases h.shows name c hc with hold | hnew
        · rw [h.owner] at howner
          exact absurd (hn.owned name c _ hold howner) (Nat.lt_irrefl _)
        · exact hnew
      · obtain ⟨o, i, first, hstart, _⟩ := h.start
        rw [hstart] at hclosed
        cases hclosed

/-- Whether an event registers nothing that claims to be an instrument of a registry. -/
def Event.isForeign : Event → Bool
  | .register _ c => c.source.owner?.isNone
  | _ => true

theorem measures_register {exposition : String} {c : Collector} (hc : c.source.owner? = none)
    (n : Node) : Measures n (n.occur (.register exposition c)) := by
  rcases register_cases exposition c n with h | ⟨e, he, h⟩
  · rw [h]
    exact .of_inner rfl
  · rw [h]
    refine ⟨rfl, rfl, rfl, rfl, Nat.le_refl _, fun name c' hc' => ?_⟩
    rcases shows_setExposition hc' with ⟨rfl, hshows⟩ | hold
    · rcases Exposition.shows_register he hshows with rfl | hold
      · exact Or.inr fun o ho => by rw [hc] at ho; cases ho
      · exact Or.inl hold
    · exact Or.inl hold

theorem Exporting.occur {n : Node} (hn : n.Exporting) {e : Event} (he : e.isForeign = true) :
    (n.occur e).Exporting := by
  cases hdirect : e.isDirect with
  | false =>
    obtain ⟨m, hm, hn'⟩ := becomes_occur hdirect n
    have hm : m.Exporting := hm.keep (fun _ _ hc hk => hk.change hc) hn
    rcases hn' with hsame | ⟨f, hf⟩
    · exact hm.change (C := fun _ => False) (.outside hsame)
    · exact hm.founds hf
  | true =>
    cases e with
    | store _ | closeOnRead _ => exact hn.congr rfl rfl rfl
    | register exposition c => exact hn.measures (measures_register (Option.isNone_iff_eq_none.mp he) n)
    | _ => cases hdirect

theorem Exporting.run {n : Node} (hn : n.Exporting) {es : List Event}
    (hes : ∀ e ∈ es, e.isForeign = true) : (n.run es).Exporting := by
  induction es generalizing n with
  | nil => exact hn
  | cons e es ih =>
    exact ih (hn.occur (hes e List.mem_cons_self)) fun x hx => hes x (List.mem_cons_of_mem e hx)

theorem Exporting.not_shown {n : Node} (hn : n.Exporting) {r : Nat} {d : Dynamic}
    (hd : n.registryAt r = some d) (hclosed : d.closed = true) {name : String} {c : Collector}
    (hc : (n.exposition name).Shows c) : c.source.owner? ≠ some d.instruments.owner := by
  obtain ⟨f, hf, rfl⟩ := Option.map_eq_some_iff.mp hd
  obtain ⟨_, hexports, hwithdrawn⟩ := hn.accounted r f hf
  intro howner
  exact hwithdrawn hclosed c (hexports name c hc howner).2

end NamespaceTopology.Node
