import NamespaceTopology.Proofs.Node.Moves

set_option autoImplicit false

/-!
In every state that a node can reach, value, topology and hub of each of its registries tell the same
story.
-/
namespace NamespaceTopology.Node

def Coherent (n : Node) : Prop := ∀ r d, n.registryAt r = some d → d.Coherent

theorem coherent_start : start.Coherent := by
  intro r d hd
  simp [registryAt, start] at hd

theorem IsStart.coherent {d : Dynamic} (h : IsStart d) : d.Coherent := by
  obtain ⟨o, i, first, rfl, hfirst⟩ := h
  exact Dynamic.coherent_start o i first hfirst

theorem Coherent.occur {n : Node} (hn : n.Coherent) (e : Event) : (n.occur e).Coherent := by
  intro r d hd
  cases hr : n.registryAt r with
  | none => exact (isStart_of_new hr hd).coherent
  | some d₀ =>
    obtain ⟨k, last, htraced⟩ := exists_traced hr e
    obtain ⟨ms, _, rfl⟩ := htraced.ends
    obtain rfl := Option.some.inj (hd.symm.trans htraced.registry)
    exact ((hn r d₀ hr).run ms).run last.toList

theorem Coherent.run {n : Node} (hn : n.Coherent) (es : List Event) : (n.run es).Coherent := by
  induction es generalizing n with
  | nil => exact hn
  | cons e es ih => exact ih (hn.occur e)

/-- A registry in use serves what its value describes and nothing else, it publishes all that it
applies, and it closes its hub with itself. -/
theorem registry_agrees_with_hub (es : List Event) (r : Nat) (d : Dynamic)
    (hd : (start.run es).registryAt r = some d) :
    (∀ v, d.value = some v → v.topology = .ok d.topology ∧ d.hub.latest = some d.topology) ∧
    (d.value = none → d.topology = Keyed.empty ∧ d.hub.latest = none) ∧
    (((start.run es).topology (.dynamic r)).isEmpty = true ↔ d.version = none) ∧
    d.hub.closed = d.closed ∧
    (∀ content v t, d.examine content = .ok (v, t) → ∃ hub, d.hub.update t = .ok hub ∧
      d.receive content = ({ d with value := some v, topology := t, hub }, [])) ∧
    (d.closed = false → ∃ hub, d.hub.close = .ok hub) := by
  have h : d.Coherent := coherent_start.run es r d hd
  refine ⟨?_, ?_, ?_, h.closed, ?_, ?_⟩
  · intro v hv
    refine ⟨h.stored v hv, ?_⟩
    rw [h.latest, hv]
    rfl
  · intro hv
    refine ⟨h.unstored hv, ?_⟩
    rw [h.latest, hv]
    rfl
  · rw [topology_of_registryAt hd]
    exact h.isEmpty_iff
  · intro content v t hx
    obtain ⟨_, _, _, _, hopen⟩ := Dynamic.examine_eq_ok.mp hx
    obtain ⟨hub, hu⟩ := Hub.exists_update_of_open t (h.closed.trans hopen)
    refine ⟨hub, hu, ?_⟩
    simp [Dynamic.receive, hx, Dynamic.apply, hu]
  · intro hopen
    exact ⟨_, Hub.close_of_open (h.closed.trans hopen)⟩

theorem registry_agrees_with_hub_small : ∃ d v, (start.run smallRun).registryAt 0 = some d ∧
    d.value = some v ∧ v.topology = .ok d.topology ∧ d.hub.latest = some d.topology := by
  have hsome : ((start.run smallRun).registryAt 0).any (fun d => d.value.isSome) = true := by
    decide +kernel
  obtain ⟨d, hd, hstored⟩ := (Option.any_eq_true ..).mp hsome
  obtain ⟨v, hv⟩ := Option.isSome_iff_exists.mp hstored
  exact ⟨d, v, hd, hv, (registry_agrees_with_hub smallRun 0 d hd).1 v hv⟩

end NamespaceTopology.Node
