import NamespaceTopology.Proofs.Keyed
import NamespaceTopology.Proofs.Metrics.Exports
import NamespaceTopology.Registry.Options

set_option autoImplicit false

/-!
What can keep instruments from being made: a name that no metric may have, or a name that is kept for
metrics of another shape. A scope that passes the check of the options never makes the first, so only a
conflict is left.
-/
namespace NamespaceTopology

/-- A name is kept for collectors of another shape. A live one of the same identity is no conflict: the
new one then counts without being shown. -/
def Exposition.Conflicts (c : Collector) (e : Exposition) : Prop :=
  e.find? c.identity = none ∧ ∃ first, e.known.find? c.name = some first ∧ first ≠ c.shape

namespace Instruments

/-! ### Names -/

theorem isMetricStart_of_scopeStart {c : Char} (h : (c.isAlpha || c = '_') = true) :
    isMetricStart c = true := by
  rw [isMetricStart, h, Bool.true_or]

theorem isMetricRest_of_scopeRest {c : Char} (h : (c.isAlphanum || c = '_') = true) :
    (isMetricStart c || c.isDigit) = true := by
  simp only [Char.isAlphanum, isMetricStart, Bool.or_eq_true] at h ⊢
  tauto

theorem isMetricName_append {s t : String} (hs : isScope s = true)
    (ht : (t.toList.all fun c => isMetricStart c || c.isDigit) = true) : isMetricName (s ++ t) = true := by
  unfold isScope at hs
  rw [isMetricName, String.toList_append]
  cases hlist : s.toList with
  | nil =>
    rw [hlist] at hs
    cases hs
  | cons c cs =>
    rw [hlist, Bool.and_eq_true, List.all_eq_true] at hs
    obtain ⟨hc, hcs⟩ := hs
    simp only [List.cons_append, List.all_append, Bool.and_eq_true]
    refine ⟨isMetricStart_of_scopeStart hc, ?_, ht⟩
    exact List.all_eq_true.mpr fun d hd => isMetricRest_of_scopeRest (hcs d hd)

theorem isMetricName_metricName {scope name : String} (hscope : isScope scope = true)
    (hname : (("_" ++ name).toList.all fun c => isMetricStart c || c.isDigit) = true) :
    isMetricName (metricName scope name) = true := by
  have hne : scope ≠ "" := by
    rintro rfl
    cases hscope
  rw [metricName, if_neg hne, String.append_assoc]
  exact isMetricName_append hscope hname

/-- A collector with a help text can be made under a name that metrics may have. -/
theorem fault?_eq_none {c : Collector} (hhelp : c.description.help ≠ "")
    (hname : isMetricName c.name = true) : c.fault? = none := by
  rw [Collector.fault?, if_neg hhelp, hname]
  exact if_neg (by decide)

theorem fault?_counterOf {scope : String} (h : isScope scope = true) (owner : Nat) :
    (counterOf owner scope).fault? = none := by
  have hhelp : "Number of namespace registry updates rejected" ≠ "" := by decide +kernel
  exact fault?_eq_none hhelp (isMetricName_metricName h (by decide +kernel))

theorem fault?_gaugeOf {scope : String} (h : isScope scope = true) (owner : Nat) :
    (gaugeOf owner scope).fault? = none := by
  have hhelp : "Version of the namespace registry value in use" ≠ "" := by decide +kernel
  exact fault?_eq_none hhelp (isMetricName_metricName h (by decide +kernel))

theorem metricName_inj {scope a b : String} (h : metricName scope a = metricName scope b) : a = b := by
  unfold metricName at h
  split at h
  · exact h
  · have hlist := congrArg String.toList h
    simp only [String.toList_append, List.append_cancel_left_eq] at hlist
    exact String.toList_injective hlist

theorem gauge_name_ne_counter_name (owner : Nat) (scope : String) :
    (gaugeOf owner scope).name ≠ (counterOf owner scope).name := fun h =>
  absurd (metricName_inj h) (by decide +kernel)

/-! ### Conflicts -/

theorem register_isOk_iff (c : Collector) (e : Exposition) :
    (register c e).result.toBool = true ↔ ¬e.Conflicts c := by
  have hstep := Exposition.register_step c e
  unfold register
  generalize e.register c = answer at hstep ⊢
  cases hstep with
  | taken hlive =>
    refine iff_of_true rfl ?_
    rintro ⟨hnone, _⟩
    rw [hnone] at hlive
    cases hlive
  | misshapen hlive hknown hshape => exact iff_of_false (by simp [Except.toBool]) (not_not_intro
      ⟨hlive, _, hknown, hshape⟩)
  | adds hlive hshape =>
    refine iff_of_true rfl ?_
    rintro ⟨_, first, hknown, hne⟩
    exact hne (hshape first hknown)

theorem find?_add_of_ne {c c' : Collector} {e : Exposition} (h : c'.name ≠ c.name)
    (hlive : e.find? c.identity = none) :
    (e.add c hlive).find? c'.identity = e.find? c'.identity := by
  have hne : c.identity ≠ c'.identity := fun heq => h (congrArg Identity.name heq).symm
  simp [Exposition.find?, Exposition.add, List.find?_append, hne]

/-- Registering a collector makes no difference to another name. -/
theorem conflicts_register_iff {c c' : Collector} (h : c'.name ≠ c.name) (e : Exposition) :
    (register c e).exposition.Conflicts c' ↔ e.Conflicts c' := by
  have hstep := Exposition.register_step c e
  unfold register
  generalize e.register c = answer at hstep ⊢
  cases hstep with
  | taken _ | misshapen _ _ _ => exact Iff.rfl
  | adds hlive _ =>
    have hknown : (e.add c hlive).known.find? c'.name = e.known.find? c'.name :=
      Keyed.find?_insert_of_ne (Ne.symm h)
    unfold Exposition.Conflicts
    rw [find?_add_of_ne h hlive, hknown]

/-- Under a scope that passed the check nothing but the two registrations decides. -/
theorem result_create {scope : String} (h : isScope scope = true) (owner : Nat) (e : Exposition) :
    (create owner scope e).result = (register (counterOf owner scope) e).result.bind fun counterShown =>
      (register (gaugeOf owner scope) (register (counterOf owner scope) e).exposition).result.map
        fun gaugeShown => ⟨owner, scope, 0, 0, counterShown, gaugeShown⟩ := by
  unfold create
  rw [fault?_counterOf h, fault?_gaugeOf h]
  simp only [Option.or_none]
  cases (register (counterOf owner scope) e).result with
  | error cause => rfl
  | ok counterShown =>
    simp only [Except.bind]
    cases (register (gaugeOf owner scope) (register (counterOf owner scope) e).exposition).result with
    | ok gaugeShown => rfl
    | error cause => cases counterShown <;> rfl

theorem create_isOk_iff {scope : String} (h : isScope scope = true) (owner : Nat) (e : Exposition) :
    (create owner scope e).result.toBool = true ↔
      ¬e.Conflicts (counterOf owner scope) ∧ ¬e.Conflicts (gaugeOf owner scope) := by
  rw [← register_isOk_iff, ← conflicts_register_iff (gauge_name_ne_counter_name owner scope),
    ← register_isOk_iff, result_create h]
  cases (register (counterOf owner scope) e).result with
  | error cause => simp [Except.bind, Except.toBool]
  | ok counterShown =>
    simp only [Except.bind]
    cases (register (gaugeOf owner scope) (register (counterOf owner scope) e).exposition).result with
    | ok gaugeShown | error cause => simp [Except.map, Except.toBool]

/-- What refuses instruments under such a scope has to do with what is registered. -/
theorem exists_register_of_create {scope : String} (h : isScope scope = true) {owner : Nat}
    {e : Exposition} {cause : MetricsError} (herror : (create owner scope e).result = .error cause) :
    ∃ c e', (register c e').result = .error cause := by
  rw [result_create h] at herror
  cases hfirst : (register (counterOf owner scope) e).result with
  | error first =>
    rw [hfirst] at herror
    obtain rfl := Except.error.inj herror
    exact ⟨_, _, hfirst⟩
  | ok counterShown =>
    rw [hfirst] at herror
    cases hsecond : (register (gaugeOf owner scope)
        (register (counterOf owner scope) e).exposition).result with
    | ok gaugeShown =>
      simp only [Except.bind, hsecond, Except.map] at herror
      cases herror
    | error second =>
      simp only [Except.bind, hsecond, Except.map] at herror
      obtain rfl := Except.error.inj herror
      exact ⟨_, _, hsecond⟩

theorem reason_of_register {c : Collector} {e : Exposition} {cause : MetricsError}
    (h : (register c e).result = .error cause) :
    ∃ reason : String, cause = .rejected reason ∧ reason.toList.head? = some 'a' := by
  have hstep := Exposition.register_step c e
  unfold register at h
  generalize e.register c = answer at hstep h
  cases hstep with
  | taken _ | adds _ _ => cases h
  | misshapen _ _ _ =>
    refine ⟨_, (Except.error.inj h).symm, ?_⟩
    simp only [String.toList_append, List.head?_append]
    rfl

theorem reason_of_fault? {c : Collector} {reason : String} (h : c.fault? = some (.rejected reason)) :
    reason.toList.head? ≠ some 'a' := by
  unfold Collector.fault? at h
  split at h
  · obtain rfl := MetricsError.rejected.inj (Option.some.inj h)
    decide
  · split at h
    · obtain rfl := MetricsError.rejected.inj (Option.some.inj h)
      simp [String.toList_append]
    · cases h

/-- A refusal to register never reads like a fault of the collector itself. -/
theorem fault?_ne_of_register {c c' : Collector} {e : Exposition} {cause : MetricsError}
    (h : (register c e).result = .error cause) : c'.fault? ≠ some cause := by
  obtain ⟨reason, rfl, hhead⟩ := reason_of_register h
  exact fun hfault => reason_of_fault? hfault hhead

end Instruments

end NamespaceTopology
