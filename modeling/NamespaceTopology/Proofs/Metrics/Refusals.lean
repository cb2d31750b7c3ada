import NamespaceTopology.Proofs.Metrics.Exports

set_option autoImplicit false

/-!
Instruments that are refused. Whether the counter is refused or only the gauge, when the counter has been
registered already, the exposition shows afterwards just what it showed before.
-/
namespace NamespaceTopology

namespace Exposition

/-- Only a collector that nothing live is mistaken for is registered, and nothing gives way to it. -/
theorem shows_register_iff {c : Collector} {e e' : Exposition} (h : e.register c = .ok e') :
    (∀ c', e.Shows c' → c'.identity ≠ c.identity) ∧ ∀ c', e'.Shows c' ↔ c' = c ∨ e.Shows c' := by
  have hstep := register_step c e
  rw [h] at hstep
  cases hstep with
  | adds hlive _ => exact ⟨fun c' hc' => identity_ne_of_find? hlive hc', fun c' => shows_add hlive⟩

theorem isSome_find? {c : Collector} {e : Exposition} (h : e.Shows c) :
    (e.find? c.identity).isSome = true := by
  rw [find?, List.find?_isSome]
  exact ⟨c, h, by simp⟩

theorem exists_unregister {c : Collector} {e : Exposition} (h : e.Shows c) :
    ∃ e', e.unregister c = .ok e' ∧ ∀ c', e'.Shows c' ↔ e.Shows c' ∧ c'.identity ≠ c.identity := by
  rw [unregister, if_pos (isSome_find? h)]
  exact ⟨_, rfl, fun c' => List.mem_filter.trans (and_congr_right fun _ => by simp)⟩

end Exposition

namespace Instruments

theorem exposition_register {c : Collector} {e : Exposition}
    (h : (register c e).result ≠ .ok true) : (register c e).exposition = e := by
  unfold register at h ⊢
  split
  next e' hok => simp [hok] at h
  · rfl
  · rfl

theorem register_eq_ok {c : Collector} {e : Exposition} (h : (register c e).result = .ok true) :
    e.register c = .ok (register c e).exposition := by
  unfold register at h ⊢
  cases hr : e.register c with
  | ok e' => rfl
  | error cause => cases cause <;> simp [hr] at h

/-- What was registered is taken back, and nothing else. -/
theorem shows_unregister_register {c : Collector} {e : Exposition}
    (h : (register c e).result = .ok true) (c' : Collector) :
    (unregister c (register c e).exposition).1.Shows c' ↔ e.Shows c' := by
  obtain ⟨hne, hshows⟩ := Exposition.shows_register_iff (register_eq_ok h)
  obtain ⟨e', he', hrest⟩ := Exposition.exists_unregister ((hshows c).mpr (Or.inl rfl))
  have hleft : (unregister c (register c e).exposition).1 = e' := by
    simp only [unregister, he']
  rw [hleft, hrest, hshows]
  constructor
  · rintro ⟨rfl | hold, hname⟩
    · exact absurd rfl hname
    · exact hold
  · intro hold
    exact ⟨Or.inr hold, hne c' hold⟩

theorem shows_create_of_error {owner : Nat} {scope : String} {e : Exposition} {cause : MetricsError}
    (h : (create owner scope e).result = .error cause) (c : Collector) :
    (create owner scope e).exposition.Shows c ↔ e.Shows c := by
  unfold create at h ⊢
  split at h
  · exact Iff.rfl
  simp only at h ⊢
  cases hfirst : (register (counterOf owner scope) e).result with
  | error _ =>
    simp only
    rw [exposition_register (by simp [hfirst])]
  | ok counterShown =>
    simp only [hfirst] at h ⊢
    cases hsecond : (register (gaugeOf owner scope)
        (register (counterOf owner scope) e).exposition).result with
    | ok gaugeShown =>
      simp only [hsecond] at h
      cases h
    | error _ =>
      simp only
      rw [exposition_register (c := gaugeOf owner scope) (by simp [hsecond])]
      cases counterShown with
      | true => exact shows_unregister_register hfirst c
      | false =>
        simp only [Bool.false_eq_true, if_false]
        rw [exposition_register (by simp [hfirst])]

/-- The counter is taken and the gauge is refused, for somebody else shows a metric of its name with a
constant label. -/
example :
    let label : Label := ⟨⟨"zone", by decide +kernel⟩, "eu"⟩
    let other : Collector := ⟨"app_current_version", ⟨"Version of the namespace registry value in use",
      Keyed.empty.insert label, .empty⟩, .gauge, .fixed none⟩
    let e := (Exposition.empty.register other).toOption.getD .empty
    (register (counterOf 0 "app") e).exposition.live = [other, counterOf 0 "app"] ∧
    (create 0 "app" e).result.isOk = false ∧ (create 0 "app" e).exposition.live = [other] := by
  decide +kernel

end Instruments

end NamespaceTopology
