import NamespaceTopology.Metrics.Instruments

set_option autoImplicit false

/-!
What an exposition shows of the instruments of registries. Registering shows nothing but what was
registered, and instruments that are withdrawn are not shown any more.
-/
namespace NamespaceTopology

def MetricSource.owner? : MetricSource → Option Nat
  | .rejectedUpdates owner => some owner
  | .currentVersion owner => some owner
  | .fixed _ => none

namespace Exposition

def Shows (c : Collector) (e : Exposition) : Prop := c ∈ e.live

variable {c c' : Collector} {e e' : Exposition}

inductive RegisterStep (c : Collector) (e : Exposition) : Except MetricsError Exposition → Prop where
  | taken (hlive : (e.find? c.identity).isSome = true) : RegisterStep c e (.error .alreadyRegistered)
  | misshapen {first : Shape} (hlive : e.find? c.identity = none)
      (hknown : e.known.find? c.name = some first) (hshape : first ≠ c.shape) :
      RegisterStep c e (.error (.rejected ("a previously registered descriptor with the same "
        ++ "fully-qualified name as " ++ c.debugText
        ++ " has different label names or a different help string")))
  | adds (hlive : e.find? c.identity = none)
      (hshape : ∀ first, e.known.find? c.name = some first → first = c.shape) :
      RegisterStep c e (.ok (e.add c hlive))

theorem register_step (c : Collector) (e : Exposition) : RegisterStep c e (e.register c) := by
  unfold register
  split
  next live hlive => exact .taken (by rw [hlive]; rfl)
  next hlive =>
    split
    next hshape =>
      obtain ⟨first, hknown, hne⟩ := (Option.any_eq_true ..).mp hshape
      exact .misshapen hlive hknown (by simpa using hne)
    next hshape =>
      refine .adds hlive fun first hknown => ?_
      simpa [hknown] using hshape

theorem shows_add (hlive : e.find? c.identity = none) :
    (e.add c hlive).Shows c' ↔ c' = c ∨ e.Shows c' := by
  simp [Shows, add, or_comm]

theorem shows_register (h : e.register c = .ok e') (hc : e'.Shows c') : c' = c ∨ e.Shows c' := by
  have hstep := register_step c e
  rw [h] at hstep
  cases hstep with
  | adds hlive _ => exact (shows_add hlive).mp hc

theorem shows_unregister (h : e.unregister c = .ok e') (hc : e'.Shows c') :
    e.Shows c' ∧ c'.identity ≠ c.identity := by
  unfold unregister at h
  split at h
  · obtain rfl := Except.ok.inj h
    obtain ⟨hmem, hne⟩ := List.mem_filter.mp hc
    exact ⟨hmem, by simpa using hne⟩
  · cases h

theorem identity_ne_of_unregister_error {cause : MetricsError} (h : e.unregister c = .error cause)
    (hc : e.Shows c') : c'.identity ≠ c.identity := by
  unfold unregister at h
  split at h
  · cases h
  next hnone => exact identity_ne_of_find? (Option.not_isSome_iff_eq_none.mp hnone) hc

end Exposition

namespace Instruments

/-- A collector is one of the instruments that are shown. -/
def Exports (i : Instruments) (c : Collector) : Prop :=
  (c = i.counter ∧ i.counterShown = true) ∨ (c = i.gauge ∧ i.gaugeShown = true)

/-- Instruments have no labels. -/
theorem identity_of_exports {i : Instruments} {c : Collector} (h : i.Exports c) :
    c.identity = ⟨c.name, []⟩ := by
  rcases h with ⟨rfl, _⟩ | ⟨rfl, _⟩ <;> rfl

theorem owner?_of_exports {i : Instruments} {c : Collector} (h : i.Exports c) :
    c.source.owner? = some i.owner := by
  rcases h with ⟨rfl, _⟩ | ⟨rfl, _⟩ <;> rfl

theorem shows_register {c c' : Collector} {e : Exposition}
    (h : (register c e).exposition.Shows c') :
    e.Shows c' ∨ (c' = c ∧ (register c e).result = .ok true) := by
  unfold register at h ⊢
  split at h
  next e' hok =>
    rcases Exposition.shows_register hok h with hnew | hold
    · exact Or.inr ⟨hnew, rfl⟩
    · exact Or.inl hold
  next => exact Or.inl h
  next => exact Or.inl h

theorem shows_unregister {c c' : Collector} {e : Exposition} (h : (unregister c e).1.Shows c') :
    e.Shows c' ∧ c'.identity ≠ c.identity := by
  unfold unregister at h
  split at h
  next e' hok => exact Exposition.shows_unregister hok h
  next cause herror => exact ⟨h, Exposition.identity_ne_of_unregister_error herror h⟩

/-- What is shown besides when instruments are made are the instruments, and if they are refused nothing
stays that they do not own. -/
theorem shows_create {owner : Nat} {scope : String} {e : Exposition} {c : Collector}
    (h : (create owner scope e).exposition.Shows c) :
    e.Shows c ∨ (c.source.owner? = some owner ∧
      ∀ i, (create owner scope e).result = .ok i → i.Exports c) := by
  unfold create at h ⊢
  split at h
  · exact Or.inl h
  simp only at h ⊢
  -- What the counter brings, and then the gauge.
  have hcounter := @shows_register (counterOf owner scope) c e
  have hgauge := @shows_register (gaugeOf owner scope) c (register (counterOf owner scope) e).exposition
  cases hfirst : (register (counterOf owner scope) e).result with
  | error cause =>
    simp only [hfirst] at h hcounter
    rcases hcounter h with hold | ⟨_, hok⟩
    · exact Or.inl hold
    · cases hok
  | ok counterShown =>
    simp only [hfirst] at h hcounter ⊢
    cases hsecond : (register (gaugeOf owner scope)
        (register (counterOf owner scope) e).exposition).result with
    | ok gaugeShown =>
      simp only [hsecond] at h hgauge ⊢
      rcases hgauge h with hfirstShows | ⟨rfl, hok⟩
      · rcases hcounter hfirstShows with hold | ⟨rfl, hok⟩
        · exact Or.inl hold
        · refine Or.inr ⟨rfl, fun i hi => Or.inl ?_⟩
          obtain rfl := Except.ok.inj hi
          exact ⟨rfl, Except.ok.inj hok⟩
      · refine Or.inr ⟨rfl, fun i hi => Or.inr ?_⟩
        obtain rfl := Except.ok.inj hi
        exact ⟨rfl, Except.ok.inj hok⟩
    | error cause =>
      simp only [hsecond] at h hgauge ⊢
      have hshows : (register (gaugeOf owner scope)
          (register (counterOf owner scope) e).exposition).exposition.Shows c := by
        cases counterShown with
        | true => exact (shows_unregister h).1
        | false => exact h
      rcases hgauge hshows with hfirstShows | ⟨_, hok⟩
      · rcases hcounter hfirstShows with hold | ⟨rfl, _⟩
        · exact Or.inl hold
        · refine Or.inr ⟨rfl, fun i hi => ?_⟩
          split at hi <;> cases hi
      · cases hok

theorem owner_of_create {owner : Nat} {scope : String} {e : Exposition} {i : Instruments}
    (h : (create owner scope e).result = .ok i) : i.owner = owner := by
  unfold create at h
  split at h
  · cases h
  · simp only at h
    split at h
    · cases h
    · split at h
      · obtain rfl := Except.ok.inj h
        rfl
      · split at h <;> cases h

theorem shows_takenBack {shown : Bool} {c c' : Collector} {e : Exposition}
    (h : (if shown then unregister c' e else (e, [])).1.Shows c) :
    e.Shows c ∧ ¬ (c = c' ∧ shown = true) := by
  cases shown with
  | false => exact ⟨h, fun ⟨_, hshown⟩ => by cases hshown⟩
  | true =>
    obtain ⟨hold, hne⟩ := shows_unregister h
    exact ⟨hold, fun ⟨heq, _⟩ => hne (heq ▸ rfl)⟩

theorem shows_withdraw {i : Instruments} {e : Exposition} {c : Collector}
    (h : (i.withdraw e).2.1.Shows c) : e.Shows c ∧ ¬ i.Exports c := by
  change (if i.gaugeShown then unregister i.gauge
    (if i.counterShown then unregister i.counter e else (e, [])).1 else _).1.Shows c at h
  obtain ⟨hfirst, hgauge⟩ := shows_takenBack h
  obtain ⟨hold, hcounter⟩ := shows_takenBack hfirst
  exact ⟨hold, fun hexports => hexports.elim hcounter hgauge⟩

structure Same (i i' : Instruments) : Prop where
  owner : i'.owner = i.owner
  scope : i'.scope = i.scope
  counterShown : i'.counterShown = i.counterShown
  gaugeShown : i'.gaugeShown = i.gaugeShown

theorem Same.exports_iff {i i' : Instruments} (h : Same i i') (c : Collector) :
    i'.Exports c ↔ i.Exports c := by
  simp only [Exports, counter, gauge, h.owner, h.scope, h.counterShown, h.gaugeShown]

end Instruments

end NamespaceTopology
