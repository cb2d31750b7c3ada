import Mathlib.Data.List.Pairwise
import NamespaceTopology.Node.Basic
import NamespaceTopology.Proofs.Metrics.Refusals

set_option autoImplicit false

/-!
Who owns what expositions show. Instruments come and go in any number, and collectors of others stand
between them. A ledger of all instruments and expositions is kept in order by every entry: what is shown of
instruments is what their flags say, and nothing else that they could own.
-/
namespace NamespaceTopology

namespace Exposition

theorem eq_of_identity_eq {c c' : Collector} {e : Exposition} (hc : e.Shows c) (hc' : e.Shows c')
    (h : c.identity = c'.identity) : c = c' := by
  have : Std.Symm fun c d : Collector => c.identity ≠ d.identity := ⟨fun _ _ => Ne.symm⟩
  by_contra hne
  exact e.distinct.forall hc hc' hne h

theorem find?_eq_some_iff {c : Collector} {e : Exposition} :
    e.find? c.identity = some c ↔ e.Shows c := by
  refine ⟨List.mem_of_find?_eq_some, fun hc => ?_⟩
  obtain ⟨d, hd⟩ := Option.isSome_iff_exists.mp (isSome_find? hc)
  have hsame : d.identity = c.identity := by simpa using List.find?_some hd
  exact hd.trans (congrArg some (eq_of_identity_eq (List.mem_of_find?_eq_some hd) hc hsame))

end Exposition

namespace Instruments

/-! ### What is shown, exactly -/

theorem counter_ne_gauge (i : Instruments) : i.counter ≠ i.gauge := fun h =>
  absurd (congrArg Collector.kind h) (by change MetricKind.counter ≠ .gauge; decide)

theorem exports_counter_iff {i j : Instruments} : j.Exports i.counter ↔
    i.counter = j.counter ∧ j.counterShown = true := by
  refine ⟨fun h => h.resolve_right fun ⟨heq, _⟩ => ?_, Or.inl⟩
  exact absurd (congrArg Collector.kind heq) (by change MetricKind.counter ≠ .gauge; decide)

theorem exports_gauge_iff {i j : Instruments} : j.Exports i.gauge ↔
    i.gauge = j.gauge ∧ j.gaugeShown = true := by
  refine ⟨fun h => h.resolve_left fun ⟨heq, _⟩ => ?_, Or.inr⟩
  exact absurd (congrArg Collector.kind heq) (by change MetricKind.gauge ≠ .counter; decide)

theorem shows_registered_iff {c : Collector} {e : Exposition} {shown : Bool}
    (h : (register c e).result = .ok shown) (c' : Collector) :
    (register c e).exposition.Shows c' ↔ e.Shows c' ∨ (c' = c ∧ shown = true) := by
  cases shown with
  | false => simp [exposition_register (c := c) (e := e) (by simp [h])]
  | true =>
    rw [(Exposition.shows_register_iff (register_eq_ok h)).2 c', or_comm]
    simp

theorem shows_created_iff {owner : Nat} {scope : String} {e : Exposition} {i : Instruments}
    (h : (create owner scope e).result = .ok i) (c : Collector) :
    (create owner scope e).exposition.Shows c ↔ e.Shows c ∨ i.Exports c := by
  unfold create at h ⊢
  split at h
  · cases h
  simp only at h ⊢
  cases hfirst : (register (counterOf owner scope) e).result with
  | error cause => simp [hfirst] at h
  | ok counterShown =>
    simp only [hfirst] at h ⊢
    cases hsecond : (register (gaugeOf owner scope)
        (register (counterOf owner scope) e).exposition).result with
    | error cause =>
      simp only [hsecond] at h
      split at h <;> cases h
    | ok gaugeShown =>
      simp only [hsecond] at h ⊢
      obtain rfl := Except.ok.inj h
      rw [shows_registered_iff hsecond, shows_registered_iff hfirst, or_assoc]
      rfl

theorem shows_takenBack_iff {shown : Bool} {c : Collector} {e : Exposition}
    (h : shown = true → e.Shows c) (c' : Collector) :
    (if shown then unregister c e else (e, [])).1.Shows c' ↔
      e.Shows c' ∧ ¬ (c' = c ∧ shown = true) := by
  refine ⟨shows_takenBack, fun ⟨hold, hnot⟩ => ?_⟩
  cases shown with
  | false => exact hold
  | true =>
    obtain ⟨e', he', hleft⟩ := Exposition.exists_unregister (h rfl)
    have hgone : (unregister c e).1 = e' := by simp only [unregister, he']
    rw [if_pos rfl, hgone, hleft]
    exact ⟨hold, fun hsame => hnot ⟨Exposition.eq_of_identity_eq hold (h rfl) hsame, rfl⟩⟩

/-- Whoever withdraws instruments that are shown as their flags say takes them back and nothing else. -/
theorem shows_withdrawn_iff {i : Instruments} {e : Exposition} (h : ∀ c, i.Exports c → e.Shows c)
    (c : Collector) : (i.withdraw e).2.1.Shows c ↔ e.Shows c ∧ ¬ i.Exports c := by
  have hcounter := shows_takenBack_iff (c := i.counter) fun hshown => h _ (Or.inl ⟨rfl, hshown⟩)
  have hgauge (hshown : i.gaugeShown = true) :
      (if i.counterShown then unregister i.counter e else (e, [])).1.Shows i.gauge :=
    (hcounter i.gauge).mpr ⟨h _ (Or.inr ⟨rfl, hshown⟩), fun ⟨heq, _⟩ => i.counter_ne_gauge heq.symm⟩
  have hwithdraw : (i.withdraw e).2.1 = (if i.gaugeShown then unregister i.gauge
      (if i.counterShown then unregister i.counter e else (e, [])).1
    else ((if i.counterShown then unregister i.counter e else (e, [])).1, [])).1 := rfl
  rw [hwithdraw, shows_takenBack_iff hgauge, hcounter, and_assoc, ← not_or]
  rfl

theorem not_exports_withdrawn (i : Instruments) (e : Exposition) (c : Collector) :
    ¬ (i.withdraw e).1.Exports c := by
  rintro (⟨_, hshown⟩ | ⟨_, hshown⟩) <;> cases hshown

/-- Instruments that have been withdrawn can be withdrawn again, and nothing happens. -/
theorem withdraw_withdrawn (i : Instruments) (e e' : Exposition) :
    (i.withdraw e).1.withdraw e' = ((i.withdraw e).1, e', []) := rfl

end Instruments

/-! ### The ledger -/

/-- Who has instruments: somebody by himself, or a registry. -/
inductive Exporter where
  | meter (m : Nat)
  | registry (r : Nat)
deriving DecidableEq, Repr

structure Meter.Same (x x' : Meter) : Prop where
  exposition : x'.exposition = x.exposition
  instruments : Instruments.Same x.instruments x'.instruments

theorem Meter.Same.refl (x : Meter) : Same x x := ⟨rfl, rfl, rfl, rfl, rfl⟩

structure Ledger where
  exposition : String → Exposition
  meter? : Exporter → Option Meter
  nextOwner : Nat

namespace Ledger

def expose (name : String) (e : Exposition) (l : Ledger) : Ledger :=
  { l with exposition := fun k => if k = name then e else l.exposition k }

def put (a : Exporter) (x : Meter) (l : Ledger) : Ledger :=
  { l with meter? := fun b => if b = a then some x else l.meter? b }

def number (l : Ledger) : Ledger := { l with nextOwner := l.nextOwner + 1 }

def withdrawn (a : Exporter) (x : Meter) (l : Ledger) : Ledger :=
  (l.expose x.exposition (x.instruments.withdraw (l.exposition x.exposition)).2.1).put a
    { x with instruments := (x.instruments.withdraw (l.exposition x.exposition)).1 }

theorem put_number (a : Exporter) (x : Meter) (l : Ledger) : l.number.put a x = (l.put a x).number := rfl

theorem expose_put (name : String) (e : Exposition) (a : Exporter) (x : Meter) (l : Ledger) :
    (l.put a x).expose name e = (l.expose name e).put a x := rfl

/-- What becomes of a ledger: instruments are used, made, refused or withdrawn, or somebody else registers
a collector. -/
inductive Entry : Ledger → Ledger → Prop
  | use {l l' : Ledger} (exposition : l'.exposition = l.exposition) (owner : l'.nextOwner = l.nextOwner)
      (same : ∀ a, Option.Rel Meter.Same (l.meter? a) (l'.meter? a)) : Entry l l'
  | make (l : Ledger) {a : Exporter} {name scope : String} {i : Instruments} (fresh : l.meter? a = none)
      (h : (Instruments.create l.nextOwner scope (l.exposition name)).result = .ok i) :
      Entry l ((l.expose name (Instruments.create l.nextOwner scope
        (l.exposition name)).exposition).put a ⟨name, i⟩).number
  | refuse (l : Ledger) {name scope : String} {cause : MetricsError}
      (h : (Instruments.create l.nextOwner scope (l.exposition name)).result = .error cause) :
      Entry l (l.expose name (Instruments.create l.nextOwner scope
        (l.exposition name)).exposition).number
  | withdraw (l : Ledger) {a : Exporter} {x : Meter} (h : l.meter? a = some x) :
      Entry l (l.withdrawn a x)
  | register (l : Ledger) {name : String} {c : Collector} {e : Exposition}
      (foreign : c.source.owner? = none) (h : (l.exposition name).register c = .ok e) :
      Entry l (l.expose name e)

inductive Entries : Ledger → Ledger → Prop
  | refl (l : Ledger) : Entries l l
  | next {l m k : Ledger} (h : Entry l m) (tail : Entries m k) : Entries l k

theorem Entries.of {l l' : Ledger} (h : Entry l l') : Entries l l' := .next h (.refl l')

theorem Entries.of_eq {l l' : Ledger} (h : l' = l) : Entries l l' := h ▸ .refl l'

theorem Entries.trans {l m k : Ledger} (h : Entries l m) (h' : Entries m k) : Entries l k := by
  induction h with
  | refl _ => exact h'
  | next hentry _ ih => exact .next hentry (ih h')

/-- A ledger in order: everybody has his own number, what the flags say is shown, and of all that is shown
and has an owner the flags say so. -/
structure Orderly (l : Ledger) : Prop where
  below : ∀ a x, l.meter? a = some x → x.instruments.owner < l.nextOwner
  distinct : ∀ a b x y, l.meter? a = some x → l.meter? b = some y →
    x.instruments.owner = y.instruments.owner → a = b
  shown : ∀ a x c, l.meter? a = some x → x.instruments.Exports c → (l.exposition x.exposition).Shows c
  owned : ∀ name c o, (l.exposition name).Shows c → c.source.owner? = some o →
    ∃ a x, l.meter? a = some x ∧ x.exposition = name ∧ x.instruments.Exports c

variable {l l' : Ledger} {a b : Exporter} {x y : Meter}

theorem cases_of_put (h : (l.put a x).meter? b = some y) :
    (b = a ∧ y = x) ∨ (b ≠ a ∧ l.meter? b = some y) := by
  by_cases hb : b = a
  · exact Or.inl ⟨hb, (Option.some.inj ((if_pos hb).symm.trans h)).symm⟩
  · exact Or.inr ⟨hb, (if_neg hb).symm.trans h⟩

/-- What is shown is exported by one at most. -/
theorem Orderly.eq_of_exports (h : l.Orderly) (hx : l.meter? a = some x) (hy : l.meter? b = some y)
    {c : Collector} (hcx : x.instruments.Exports c) (hcy : y.instruments.Exports c) : a = b := by
  refine h.distinct a b x y hx hy (Option.some.inj ?_)
  rw [← Instruments.owner?_of_exports hcx, ← Instruments.owner?_of_exports hcy]

theorem Orderly.use (h : l.Orderly) (hexposition : l'.exposition = l.exposition)
    (howner : l'.nextOwner = l.nextOwner)
    (hsame : ∀ a, Option.Rel Meter.Same (l.meter? a) (l'.meter? a)) : l'.Orderly := by
  have hold {a : Exporter} {x' : Meter} (hx' : l'.meter? a = some x') :
      ∃ x, l.meter? a = some x ∧ x.Same x' := by
    have hrel := hsame a
    rw [hx'] at hrel
    cases hx : l.meter? a with
    | none => rw [hx] at hrel; cases hrel
    | some x =>
      rw [hx] at hrel
      cases hrel with
      | some hxx' => exact ⟨x, rfl, hxx'⟩
  have hnew {a : Exporter} {x : Meter} (hx : l.meter? a = some x) :
      ∃ x', l'.meter? a = some x' ∧ x.Same x' := by
    have hrel := hsame a
    rw [hx] at hrel
    cases hx' : l'.meter? a with
    | none => rw [hx'] at hrel; cases hrel
    | some x' =>
      rw [hx'] at hrel
      cases hrel with
      | some hxx' => exact ⟨x', rfl, hxx'⟩
  refine ⟨?_, ?_, ?_, ?_⟩
  · intro a x' hx'
    obtain ⟨x, hx, hxx'⟩ := hold hx'
    rw [howner, hxx'.instruments.owner]
    exact h.below a x hx
  · intro a b x' y' hx' hy' hsameOwner
    obtain ⟨x, hx, hxx'⟩ := hold hx'
    obtain ⟨y, hy, hyy'⟩ := hold hy'
    rw [hxx'.instruments.owner, hyy'.instruments.owner] at hsameOwner
    exact h.distinct a b x y hx hy hsameOwner
  · intro a x' c hx' hc
    obtain ⟨x, hx, hxx'⟩ := hold hx'
    rw [hexposition, hxx'.exposition]
    exact h.shown a x c hx ((hxx'.instruments.exports_iff c).mp hc)
  · intro name c o hc ho
    rw [hexposition] at hc
    obtain ⟨a, x, hx, hname, hexports⟩ := h.owned name c o hc ho
    obtain ⟨x', hx', hxx'⟩ := hnew hx
    exact ⟨a, x', hx', hxx'.exposition.trans hname, (hxx'.instruments.exports_iff c).mpr hexports⟩

theorem Orderly.make (h : l.Orderly) {name scope : String} {i : Instruments} (fresh : l.meter? a = none)
    (hmade : (Instruments.create l.nextOwner scope (l.exposition name)).result = .ok i) :
    Orderly ((l.expose name (Instruments.create l.nextOwner scope
      (l.exposition name)).exposition).put a ⟨name, i⟩).number := by
  have howner : i.owner = l.nextOwner := Instruments.owner_of_create hmade
  have hshows := Instruments.shows_created_iff hmade
  generalize (Instruments.create l.nextOwner scope (l.exposition name)).exposition = e at hshows
  -- Everybody else keeps what he has, and his number is smaller.
  have hcases {b : Exporter} {y : Meter}
      (hy : (((l.expose name e).put a ⟨name, i⟩).number).meter? b = some y) :
      (b = a ∧ y = ⟨name, i⟩) ∨ (b ≠ a ∧ l.meter? b = some y) := cases_of_put hy
  refine ⟨?_, ?_, ?_, ?_⟩
  · intro b y hy
    change y.instruments.owner < l.nextOwner + 1
    rcases hcases hy with ⟨_, rfl⟩ | ⟨_, hold⟩
    · exact howner ▸ Nat.lt_succ_self _
    · exact Nat.lt_succ_of_lt (h.below b y hold)
  · intro b c y z hy hz hsame
    rcases hcases hy with ⟨hb, rfl⟩ | ⟨_, hyOld⟩
    · rcases hcases hz with ⟨hc, _⟩ | ⟨_, hzOld⟩
      · exact hb.trans hc.symm
      · exact absurd (hsame.symm.trans howner) (Nat.ne_of_lt (h.below c z hzOld))
    · rcases hcases hz with ⟨_, rfl⟩ | ⟨_, hzOld⟩
      · exact absurd (hsame.trans howner) (Nat.ne_of_lt (h.below b y hyOld))
      · exact h.distinct b c y z hyOld hzOld hsame
  · intro b y c hy hc
    change (if y.exposition = name then e else l.exposition y.exposition).Shows c
    rcases hcases hy with ⟨_, rfl⟩ | ⟨_, hold⟩
    · rw [if_pos rfl, hshows]
      exact Or.inr hc
    · have hold := h.shown b y c hold hc
      split
      next hname =>
        rw [hshows, ← hname]
        exact Or.inl hold
      next => exact hold
  · intro name' c o hc ho
    change (if name' = name then e else l.exposition name').Shows c at hc
    have hold (hc : (l.exposition name').Shows c) : ∃ b y,
        (((l.expose name e).put a ⟨name, i⟩).number).meter? b = some y ∧ y.exposition = name' ∧
          y.instruments.Exports c := by
      obtain ⟨b, y, hy, hname, hexports⟩ := h.owned name' c o hc ho
      have hb : b ≠ a := by
        rintro rfl
        rw [fresh] at hy
        cases hy
      exact ⟨b, y, (if_neg hb).trans hy, hname, hexports⟩
    split at hc
    next hname =>
      rcases (hshows c).mp hc with hc | hexports
      · exact hold (hname ▸ hc)
      · exact ⟨a, ⟨name, i⟩, if_pos rfl, hname.symm, hexports⟩
    next => exact hold hc

theorem Orderly.refuse (h : l.Orderly) {name scope : String} {cause : MetricsError}
    (hmade : (Instruments.create l.nextOwner scope (l.exposition name)).result = .error cause) :
    Orderly (l.expose name (Instruments.create l.nextOwner scope
      (l.exposition name)).exposition).number := by
  have hshows (name' : String) (c : Collector) : ((l.expose name (Instruments.create l.nextOwner scope
      (l.exposition name)).exposition).exposition name').Shows c ↔ (l.exposition name').Shows c := by
    change (if name' = name then _ else l.exposition name').Shows c ↔ _
    split
    next hname =>
      rw [hname]
      exact Instruments.shows_create_of_error hmade c
    next => exact Iff.rfl
  refine ⟨fun b y hy => Nat.lt_succ_of_lt (h.below b y hy), h.distinct, ?_, ?_⟩
  · intro b y c hy hc
    exact (hshows _ c).mpr (h.shown b y c hy hc)
  · intro name' c o hc ho
    exact h.owned name' c o ((hshows name' c).mp hc) ho

theorem Orderly.register (h : l.Orderly) {name : String} {c : Collector} {e : Exposition}
    (foreign : c.source.owner? = none) (he : (l.exposition name).register c = .ok e) :
    (l.expose name e).Orderly := by
  obtain ⟨_, hshows⟩ := Exposition.shows_register_iff he
  refine ⟨h.below, h.distinct, ?_, ?_⟩
  · intro b y c' hy hc
    have hold := h.shown b y c' hy hc
    change (if y.exposition = name then e else l.exposition y.exposition).Shows c'
    split
    next hname => exact (hshows c').mpr (Or.inr (hname ▸ hold))
    next => exact hold
  · intro name' c' o hc ho
    change (if name' = name then e else l.exposition name').Shows c' at hc
    split at hc
    next hname =>
      rcases (hshows c').mp hc with rfl | hold
      · rw [foreign] at ho
        cases ho
      · exact h.owned name' c' o (hname ▸ hold) ho
    next => exact h.owned name' c' o hc ho

/-- What a ledger in order shows after somebody has withdrawn what he has. -/
theorem Orderly.shows_withdrawn_iff (h : l.Orderly) (hx : l.meter? a = some x) (name : String)
    (c : Collector) : ((l.withdrawn a x).exposition name).Shows c ↔
      (l.exposition name).Shows c ∧ ¬ (name = x.exposition ∧ x.instruments.Exports c) := by
  change (if name = x.exposition then _ else l.exposition name).Shows c ↔ _
  split
  next hname =>
    rw [Instruments.shows_withdrawn_iff fun c hc => h.shown a x c hx hc, hname]
    simp
  next hname => simp [hname]

theorem meter?_withdrawn (a : Exporter) (x : Meter) (l : Ledger) :
    ∃ y, (l.withdrawn a x).meter? a = some y ∧ ∀ c, ¬ y.instruments.Exports c :=
  ⟨_, if_pos rfl, x.instruments.not_exports_withdrawn (l.exposition x.exposition)⟩

theorem Orderly.withdraw (h : l.Orderly) (hx : l.meter? a = some x) : (l.withdrawn a x).Orderly := by
  have hshows := h.shows_withdrawn_iff hx
  unfold withdrawn at hshows ⊢
  have hnothing := x.instruments.not_exports_withdrawn (l.exposition x.exposition)
  have howner : (x.instruments.withdraw (l.exposition x.exposition)).1.owner = x.instruments.owner := rfl
  generalize (x.instruments.withdraw (l.exposition x.exposition)).2.1 = e at hshows ⊢
  generalize (x.instruments.withdraw (l.exposition x.exposition)).1 = i at hnothing howner ⊢
  have hcases {b : Exporter} {y : Meter}
      (hy : ((l.expose x.exposition e).put a { x with instruments := i }).meter? b = some y) :
      (b = a ∧ y = { x with instruments := i }) ∨ (b ≠ a ∧ l.meter? b = some y) := cases_of_put hy
  -- Everybody had the number before that he has now.
  have hnumber {b : Exporter} {y : Meter}
      (hy : ((l.expose x.exposition e).put a { x with instruments := i }).meter? b = some y) :
      ∃ y₀, l.meter? b = some y₀ ∧ y₀.instruments.owner = y.instruments.owner := by
    rcases hcases hy with ⟨rfl, rfl⟩ | ⟨_, hold⟩
    · exact ⟨x, hx, howner.symm⟩
    · exact ⟨y, hold, rfl⟩
  refine ⟨?_, ?_, ?_, ?_⟩
  · intro b y hy
    obtain ⟨y₀, hy₀, hsame⟩ := hnumber hy
    rw [← hsame]
    exact h.below b y₀ hy₀
  · intro b c y z hy hz hsame
    obtain ⟨y₀, hy₀, hy⟩ := hnumber hy
    obtain ⟨z₀, hz₀, hz⟩ := hnumber hz
    exact h.distinct b c y₀ z₀ hy₀ hz₀ (hy.trans (hsame.trans hz.symm))
  · intro b y c hy hc
    rcases hcases hy with ⟨_, rfl⟩ | ⟨hb, hold⟩
    · exact absurd hc (hnothing c)
    · refine (hshows y.exposition c).mpr ⟨h.shown b y c hold hc, fun ⟨_, hexports⟩ => hb ?_⟩
      exact h.eq_of_exports hold hx hc hexports
  · intro name c o hc ho
    obtain ⟨hc, hnot⟩ := (hshows name c).mp hc
    obtain ⟨b, y, hy, hname, hexports⟩ := h.owned name c o hc ho
    refine ⟨b, y, (if_neg ?_).trans hy, hname, hexports⟩
    rintro rfl
    obtain rfl := Option.some.inj (hx.symm.trans hy)
    exact hnot ⟨hname.symm, hexports⟩

theorem Orderly.entry (h : l.Orderly) (hentry : Entry l l') : l'.Orderly := by
  cases hentry with
  | use hexposition howner hsame => exact h.use hexposition howner hsame
  | make fresh hmade => exact h.make fresh hmade
  | refuse hmade => exact h.refuse hmade
  | withdraw hx => exact h.withdraw hx
  | register foreign he => exact h.register foreign he

theorem Orderly.entries (h : l.Orderly) (hentries : Entries l l') : l'.Orderly := by
  induction hentries with
  | refl _ => exact h
  | next hentry _ ih => exact ih (h.entry hentry)

/-- What belongs to nobody stays, whatever becomes of instruments. -/
theorem Orderly.foreign_entry (h : l.Orderly) (hentry : Entry l l') {name : String} {c : Collector}
    (hforeign : c.source.owner? = none) (hc : (l.exposition name).Shows c) :
    (l'.exposition name).Shows c := by
  have hnot {i : Instruments} : ¬ i.Exports c := by
    intro hexports
    rw [Instruments.owner?_of_exports hexports] at hforeign
    cases hforeign
  cases hentry with
  | use hexposition _ _ => exact hexposition ▸ hc
  | @make a k scope i _ hmade =>
    change (if name = k then _ else l.exposition name).Shows c
    split
    next hname => exact (Instruments.shows_created_iff hmade c).mpr (Or.inl (hname ▸ hc))
    next => exact hc
  | @refuse k scope cause hmade =>
    change (if name = k then _ else l.exposition name).Shows c
    split
    next hname => exact (Instruments.shows_create_of_error hmade c).mpr (hname ▸ hc)
    next => exact hc
  | withdraw hx => exact (h.shows_withdrawn_iff hx name c).mpr ⟨hc, fun ⟨_, hexports⟩ => hnot hexports⟩
  | @register k c' e _ he =>
    change (if name = k then e else l.exposition name).Shows c
    split
    next hname => exact ((Exposition.shows_register_iff he).2 c).mpr (Or.inr (hname ▸ hc))
    next => exact hc

theorem Orderly.foreign_entries (h : l.Orderly) (hentries : Entries l l') {name : String}
    {c : Collector} (hforeign : c.source.owner? = none) (hc : (l.exposition name).Shows c) :
    (l'.exposition name).Shows c := by
  induction hentries with
  | refl _ => exact hc
  | next hentry _ ih => exact ih (h.entry hentry) (h.foreign_entry hentry hforeign hc)

/-! ### What a ledger in order says -/

theorem Orderly.eq_of_owner (h : l.Orderly) (hx : l.meter? a = some x) {name : String} {c : Collector}
    (hc : (l.exposition name).Shows c) (howner : c.source.owner? = some x.instruments.owner) :
    x.instruments.Exports c := by
  obtain ⟨b, y, hy, _, hexports⟩ := h.owned name c _ hc howner
  have hsame : y.instruments.owner = x.instruments.owner :=
    Option.some.inj ((Instruments.owner?_of_exports hexports).symm.trans howner)
  obtain rfl := h.distinct b a y x hy hx hsame
  obtain rfl := Option.some.inj (hx.symm.trans hy)
  exact hexports

/-- A flag says just whether the own collector is the one that is found. -/
theorem Orderly.counterShown_iff (h : l.Orderly) (hx : l.meter? a = some x) :
    x.instruments.counterShown = true ↔ (l.exposition x.exposition).find?
      x.instruments.counter.identity = some x.instruments.counter := by
  rw [Exposition.find?_eq_some_iff]
  constructor
  · intro hshown
    exact h.shown a x _ hx (Or.inl ⟨rfl, hshown⟩)
  · intro hc
    exact (Instruments.exports_counter_iff.mp (h.eq_of_owner hx hc rfl)).2

theorem Orderly.gaugeShown_iff (h : l.Orderly) (hx : l.meter? a = some x) :
    x.instruments.gaugeShown = true ↔ (l.exposition x.exposition).find?
      x.instruments.gauge.identity = some x.instruments.gauge := by
  rw [Exposition.find?_eq_some_iff]
  constructor
  · intro hshown
    exact h.shown a x _ hx (Or.inr ⟨rfl, hshown⟩)
  · intro hc
    exact (Instruments.exports_gauge_iff.mp (h.eq_of_owner hx hc rfl)).2

/-- One name is exported by one at most. -/
theorem Orderly.eq_of_name_eq (h : l.Orderly) (hx : l.meter? a = some x) (hy : l.meter? b = some y)
    (hplace : x.exposition = y.exposition) {c c' : Collector} (hc : x.instruments.Exports c)
    (hc' : y.instruments.Exports c') (hname : c.name = c'.name) : a = b := by
  have hshown := h.shown a x c hx hc
  rw [hplace] at hshown
  have hidentity : c.identity = c'.identity := by
    rw [Instruments.identity_of_exports hc, Instruments.identity_of_exports hc', hname]
  obtain rfl := Exposition.eq_of_identity_eq hshown (h.shown b y c' hy hc') hidentity
  exact h.eq_of_exports hx hy hc hc'

theorem Orderly.eq_of_counterShown (h : l.Orderly) (hx : l.meter? a = some x) (hy : l.meter? b = some y)
    (hplace : x.exposition = y.exposition) (hscope : x.instruments.scope = y.instruments.scope)
    (hcx : x.instruments.counterShown = true) (hcy : y.instruments.counterShown = true) : a = b :=
  h.eq_of_name_eq hx hy hplace (Or.inl ⟨rfl, hcx⟩) (Or.inl ⟨rfl, hcy⟩)
    (congrArg (fun scope => Instruments.metricName scope "invalid_update") hscope)

theorem Orderly.eq_of_gaugeShown (h : l.Orderly) (hx : l.meter? a = some x) (hy : l.meter? b = some y)
    (hplace : x.exposition = y.exposition) (hscope : x.instruments.scope = y.instruments.scope)
    (hgx : x.instruments.gaugeShown = true) (hgy : y.instruments.gaugeShown = true) : a = b :=
  h.eq_of_name_eq hx hy hplace (Or.inr ⟨rfl, hgx⟩) (Or.inr ⟨rfl, hgy⟩)
    (congrArg (fun scope => Instruments.metricName scope "current_version") hscope)

end Ledger

end NamespaceTopology
