import NamespaceTopology.Proofs.Registry.Coherence

set_option autoImplicit false

/-!
What a series of contents leads to, told without a registry: a fold over what is stored, served and
published. An open registry that takes the contents in ends up with what the fold gives.
-/
namespace NamespaceTopology

/-- What a content brings to one who stores a value and serves a topology: it is present, newer than
what is stored, readable, and different from what is served. -/
def brought (content stored : Option Value) (served : Topology) : Option (Value × Topology) :=
  match content with
  | none => none
  | some v => match v.topology with
    | .error _ => none
    | .ok t => if (∀ w ∈ stored, w.version < v.version) ∧ t ≠ served then some (v, t) else none

theorem brought_eq_some {content stored : Option Value} {served : Topology} {v : Value}
    {t : Topology} : brought content stored served = some (v, t) ↔ content = some v ∧
      (∀ w, stored = some w → w.version < v.version) ∧ v.topology = .ok t ∧ t ≠ served := by
  cases content with
  | none => simp [brought]
  | some u =>
    cases hu : u.topology with
    | error cause =>
      simp only [brought, hu]
      constructor
      · intro h
        cases h
      · rintro ⟨hcontent, _, ht, _⟩
        obtain rfl := Option.some.inj hcontent
        rw [hu] at ht
        cases ht
    | ok x =>
      simp only [brought, hu]
      constructor
      · intro h
        split at h
        next hbrings =>
          obtain ⟨rfl, rfl⟩ := Prod.mk.inj (Option.some.inj h)
          exact ⟨rfl, hbrings.1, hu, hbrings.2⟩
        next => cases h
      · rintro ⟨hcontent, hnewer, ht, hne⟩
        obtain rfl := Option.some.inj hcontent
        rw [hu] at ht
        obtain rfl := Except.ok.inj ht
        exact if_pos ⟨hnewer, hne⟩

theorem not_brought {v : Value} {stored : Option Value} {served : Topology}
    (h : brought (some v) stored served = none) :
    (∃ w, stored = some w ∧ v.version ≤ w.version) ∨ (∃ cause, v.topology = .error cause) ∨
      v.topology = .ok served := by
  cases ht : v.topology with
  | error cause => exact Or.inr (Or.inl ⟨cause, rfl⟩)
  | ok t =>
    by_cases hne : t = served
    · exact Or.inr (Or.inr (congrArg Except.ok hne))
    · left
      have hold : ¬ ∀ w, stored = some w → w.version < v.version := by
        intro hnewer
        rw [brought_eq_some.mpr ⟨rfl, hnewer, ht, hne⟩] at h
        cases h
      cases stored with
      | none => exact absurd (fun w hw => by cases hw) hold
      | some w =>
        refine ⟨w, rfl, Int64.not_lt.mp fun hlt => hold ?_⟩
        intro u hu
        rw [← Option.some.inj hu]
        exact hlt

structure Progress where
  value : Option Value
  topology : Topology
  published : List Topology
  rejected : Nat

namespace Progress

/-- A content is applied as a whole and published once, or it is only counted. -/
def take (p : Progress) (content : Option Value) : Progress :=
  match brought content p.value p.topology with
  | some (v, t) => { p with value := some v, topology := t, published := p.published ++ [t] }
  | none => { p with rejected := p.rejected + 1 }

def takeAll (p : Progress) (contents : List (Option Value)) : Progress := contents.foldl take p

theorem takeAll_append (p : Progress) (cs cs' : List (Option Value)) :
    p.takeAll (cs ++ cs') = (p.takeAll cs).takeAll cs' := List.foldl_append

end Progress

theorem Value.isNewer_iff (v : Value) (stored : Option Value) :
    v.isNewer stored = true ↔ ∀ w, stored = some w → w.version < v.version := by
  cases stored with
  | none => simp [isNewer]
  | some w => simp [isNewer, Int64.lt_iff_toInt_lt]

namespace Dynamic

/-- An open registry applies what a content brings, and nothing else. -/
theorem examine_eq_ok_iff_brought {d : Dynamic} (hopen : d.closed = false) {content : Option Value}
    {v : Value} {t : Topology} :
    d.examine content = .ok (v, t) ↔ brought content d.value d.topology = some (v, t) := by
  rw [examine_eq_ok, brought_eq_some, Value.isNewer_iff]
  simp only [hopen, and_true]

theorem receive_of_brought {d : Dynamic} (hd : d.Coherent) (hopen : d.closed = false)
    {content : Option Value} {v : Value} {t : Topology}
    (h : brought content d.value d.topology = some (v, t)) : ∃ hub, d.hub.update t = .ok hub ∧
      (d.receive content).1 = { d with value := some v, topology := t, hub } := by
  have hok := (examine_eq_ok_iff_brought hopen).mpr h
  rcases receive_cases hd content with ⟨v', t', hub, hok', hu, heq⟩ | ⟨⟨_, hr⟩, _⟩ | ⟨⟨_, hr⟩, _⟩
  · rw [hok] at hok'
    obtain ⟨rfl, rfl⟩ := Prod.mk.inj (Except.ok.inj hok')
    exact ⟨hub, hu, heq⟩
  · rw [hok] at hr
    cases hr
  · rw [hok] at hr
    cases hr

theorem receive_of_not_brought {d : Dynamic} (hd : d.Coherent) (hopen : d.closed = false)
    {content : Option Value} (h : brought content d.value d.topology = none) :
    (d.receive content).1 = { d with instruments := d.instruments.count 1 } := by
  rcases receive_cases hd content with ⟨v, t, _, hok, _⟩ | ⟨_, hclosed, _⟩ | ⟨_, heq⟩
  · rw [(examine_eq_ok_iff_brought hopen).mp hok] at h
    cases h
  · rw [hopen] at hclosed
    cases hclosed
  · exact heq

/-- While nothing is stored, every readable content brings something. -/
theorem brought_of_unstored {d : Dynamic} (hd : d.Coherent) (hv : d.value = none)
    (content : Option Value) (v : Value) (t : Topology) :
    brought content d.value d.topology = some (v, t) ↔ content = some v ∧ v.topology = .ok t := by
  rw [brought_eq_some, hv, hd.unstored hv]
  constructor
  · rintro ⟨hcontent, _, ht, _⟩
    exact ⟨hcontent, ht⟩
  · rintro ⟨hcontent, ht⟩
    exact ⟨hcontent, by simp, ht, Value.topology_ne_empty ht⟩

/-! ### Moves between two contents -/

structure Alike (d d' : Dynamic) : Prop where
  value : d'.value = d.value
  topology : d'.topology = d.topology
  latest : d'.hub.latest = d.hub.latest
  rejected : d'.instruments.rejected = d.instruments.rejected

theorem Alike.refl (d : Dynamic) : Alike d d := ⟨rfl, rfl, rfl, rfl⟩

theorem Alike.trans {d d' d'' : Dynamic} (h : Alike d d') (h' : Alike d' d'') : Alike d d'' :=
  ⟨h'.value.trans h.value, h'.topology.trans h.topology, h'.latest.trans h.latest,
    h'.rejected.trans h.rejected⟩

theorem alike_after {d : Dynamic} (hd : d.Coherent) {m : Move} (hm : m.content? = none) :
    Alike d (d.after m) := by
  cases m with
  | watch =>
    rcases after_watch_cases d with heq | ⟨hub, id, hs, heq⟩
    · rw [heq]
      exact .refl d
    · rw [heq]
      obtain ⟨_, _, rfl⟩ := Hub.subscribe_eq_ok hs
      exact ⟨rfl, rfl, rfl, rfl⟩
  | close e =>
    rcases after_close_cases hd e with ⟨_, heq⟩ | ⟨_, hub, instruments, hc, hrejected, heq⟩
    · rw [heq]
      exact .refl d
    · rw [heq]
      obtain ⟨_, rfl⟩ := Hub.close_eq_ok hc
      exact ⟨rfl, rfl, rfl, hrejected⟩
  | next id => exact ⟨rfl, rfl, Hub.latest_next _ _, rfl⟩
  | withdraw _ | drop _ => exact ⟨rfl, rfl, rfl, rfl⟩
  | sample =>
    obtain ⟨instruments, hrejected, heq⟩ := after_sample d
    rw [heq]
    exact ⟨rfl, rfl, rfl, hrejected⟩
  | receive content => cases hm

theorem alike_run {d : Dynamic} (hd : d.Coherent) {ms : List Move}
    (hms : ms.filterMap Move.content? = []) : Alike d (d.run ms) := by
  induction ms generalizing d with
  | nil => exact .refl d
  | cons m ms ih =>
    rw [List.filterMap_eq_nil_iff] at hms
    have hm := hms m List.mem_cons_self
    have hrest := List.filterMap_eq_nil_iff.mpr fun x hx => hms x (List.mem_cons_of_mem m hx)
    exact (alike_after hd hm).trans (ih (hd.after m) hrest)

/-! ### The fold -/

/-- A registry is where a series of contents has led, having counted `base` updates before it. -/
structure Reached (base : UInt64) (p : Progress) (d : Dynamic) : Prop where
  value : d.value = p.value
  topology : d.topology = p.topology
  rejected : d.instruments.rejected = base + UInt64.ofNat p.rejected

theorem Reached.alike {base : UInt64} {p : Progress} {d d' : Dynamic} (h : Reached base p d)
    (ha : Alike d d') : Reached base p d' :=
  ⟨ha.value.trans h.value, ha.topology.trans h.topology, ha.rejected.trans h.rejected⟩

/-- What is published when the latest topology changes, and nothing when it does not. -/
def publishedBetween (before after : Option Topology) : List Topology :=
  if after = before then [] else after.toList

theorem publishedBetween_self (latest : Option Topology) : publishedBetween latest latest = [] :=
  if_pos rfl

/-- One content more, for the registry and for the fold. -/
theorem Reached.receive {base : UInt64} {p : Progress} {d : Dynamic} (h : Reached base p d)
    (hd : d.Coherent) (hopen : d.closed = false) (content : Option Value) :
    Reached base (p.take content) (d.receive content).1 ∧ (p.take content).published =
      p.published ++ publishedBetween d.hub.latest (d.receive content).1.hub.latest := by
  have hbrought : brought content d.value d.topology = brought content p.value p.topology := by
    rw [h.value, h.topology]
  cases hb : brought content d.value d.topology with
  | some x =>
    obtain ⟨v, t⟩ := x
    obtain ⟨hub, hu, heq⟩ := receive_of_brought hd hopen hb
    obtain ⟨_, rfl⟩ := Hub.update_eq_ok hu
    have htake : p.take content =
        { p with value := some v, topology := t, published := p.published ++ [t] } := by
      simp only [Progress.take, ← hbrought, hb]
    have hne : t ≠ d.topology := (brought_eq_some.mp hb).2.2.2
    have hlatest : some t ≠ d.hub.latest := by
      rw [hd.latest]
      cases d.value with
      | none => simp
      | some w => simpa using hne
    rw [htake, heq]
    refine ⟨⟨rfl, rfl, h.rejected⟩, ?_⟩
    simp only [publishedBetween, hlatest, if_false]
    rfl
  | none =>
    have heq := receive_of_not_brought hd hopen hb
    have htake : p.take content = { p with rejected := p.rejected + 1 } := by
      simp only [Progress.take, ← hbrought, hb]
    rw [htake, heq]
    refine ⟨⟨h.value, h.topology, ?_⟩, ?_⟩
    · change d.instruments.rejected + 1 = base + UInt64.ofNat (p.rejected + 1)
      rw [h.rejected, UInt64.ofNat_add, UInt64.add_assoc]
      rfl
    · rw [publishedBetween_self, List.append_nil]

/-! ### Nothing left to apply -/

/-- A content has nothing to bring to the registry, unless that is closed. -/
def Settled (d : Dynamic) (content : Option Value) : Prop :=
  d.closed = false → brought content d.value d.topology = none

theorem brought_self (content : Option Value) (served : Topology) :
    brought content content served = none := by
  cases hb : brought content content served with
  | none => rfl
  | some x =>
    obtain ⟨v, t⟩ := x
    obtain ⟨hv, hnewer, _⟩ := brought_eq_some.mp hb
    exact absurd (hnewer v hv) Int64.lt_irrefl

theorem value_apply (v : Value) (t : Topology) (d : Dynamic) : (d.apply v t).1.value = some v := by
  unfold apply
  simp only
  split <;> rfl

/-- A content that has been taken in has nothing more to bring. -/
theorem settled_receive (d : Dynamic) (content : Option Value) :
    (d.receive content).1.Settled content := by
  intro hopen
  unfold receive at hopen ⊢
  cases hx : d.examine content with
  | ok x =>
    obtain ⟨v, t⟩ := x
    obtain ⟨rfl, _⟩ := examine_eq_ok.mp hx
    simp only [value_apply]
    exact brought_self _ _
  | error rejection =>
    have hnone (hd : d.closed = false) : brought content d.value d.topology = none := by
      cases hb : brought content d.value d.topology with
      | none => rfl
      | some x =>
        rw [(examine_eq_ok_iff_brought hd).mpr hb] at hx
        cases hx
    simp only [hx] at hopen
    cases rejection <;> exact hnone hopen

theorem closed_receive (d : Dynamic) (content : Option Value) :
    (d.receive content).1.closed = d.closed := by
  unfold receive
  split
  · unfold apply
    simp only
    split <;> rfl
  · rfl
  · rfl

theorem key_receive (d : Dynamic) (content : Option Value) : (d.receive content).1.key = d.key := by
  unfold receive
  split
  · unfold apply
    simp only
    split <;> rfl
  · rfl
  · rfl

theorem settled_close {d d' : Dynamic} {e e' : Exposition} {notices : List Notice}
    (h : d.close e = .ok (d', e', notices)) : d'.key = d.key ∧ ∀ content, d'.Settled content := by
  unfold close at h
  split at h
  · cases h
  · obtain ⟨rfl, _⟩ := Prod.mk.inj (Except.ok.inj h)
    exact ⟨rfl, fun _ hopen => by cases hopen⟩

/-- A registry follows one key for ever. -/
theorem key_after (d : Dynamic) (m : Move) : (d.after m).key = d.key := by
  cases m with
  | watch =>
    rcases after_watch_cases d with heq | ⟨_, _, _, heq⟩ <;> rw [heq]
  | close e =>
    simp only [after]
    split
    next hc => exact (settled_close hc).1
    next => rfl
  | withdraw _ | next _ | drop _ => rfl
  | sample =>
    obtain ⟨_, _, heq⟩ := after_sample d
    rw [heq]
  | receive content => exact key_receive d content

theorem settled_start (o : DynamicOptions) (i : Instruments) (first : Option (Value × Topology)) :
    (start o i first).Settled (first.map Prod.fst) := by
  intro _
  exact brought_self _ _

end Dynamic

end NamespaceTopology
