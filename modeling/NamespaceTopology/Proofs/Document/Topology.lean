import NamespaceTopology.Proofs.Keyed
import NamespaceTopology.Store.Value

set_option autoImplicit false

/-!
Topologies as documents. A length of time survives the way into a document and back if it is one of signed
64-bit nanoseconds, and a document never describes a longer one. A topology is built of its namespaces in
any order, so the order in which the entries of a document are looked at does not matter.
-/
namespace NamespaceTopology

theorem bind_eq_ok {ε α β : Type} {x : Except ε α} {f : α → Except ε β} {b : β} :
    (x >>= f) = .ok b ↔ ∃ a, x = .ok a ∧ f a = .ok b := by
  cases x with
  | error e => simp [bind, Except.bind]
  | ok a => simp [bind, Except.bind]

/-- A traversal succeeds if it does at every element. -/
theorem mapM_eq_ok {ε α β : Type} {f : α → Except ε β} {xs : List α} {ys : List β} :
    xs.mapM f = .ok ys ↔ xs.map f = ys.map .ok := by
  induction xs generalizing ys with
  | nil => cases ys <;> simp [pure, Except.pure]
  | cons x xs ih =>
    rw [List.mapM_cons, bind_eq_ok]
    constructor
    · rintro ⟨y, hy, h⟩
      obtain ⟨ys', hys, h⟩ := bind_eq_ok.1 h
      obtain rfl := Except.ok.inj h
      rw [List.map_cons, List.map_cons, hy, ih.mp hys]
    · intro h
      cases ys with
      | nil => cases h
      | cons y ys =>
        obtain ⟨hy, hys⟩ := List.cons.inj h
        exact ⟨y, hy, bind_eq_ok.2 ⟨ys, ih.mpr hys, rfl⟩⟩

theorem map_ok_perm {ε α β : Type} {f : α → Except ε β} {xs xs' : List α} (hperm : xs.Perm xs')
    {ys : List β} (h : xs.map f = ys.map .ok) :
    ∃ ys', xs'.map f = ys'.map .ok ∧ ys.Perm ys' := by
  induction hperm generalizing ys with
  | nil => exact ⟨ys, h, .refl ys⟩
  | cons x _ ih =>
    cases ys with
    | nil => cases h
    | cons y ys =>
      obtain ⟨hx, hxs⟩ := List.cons.inj h
      obtain ⟨ys', hys', hsame⟩ := ih hxs
      refine ⟨y :: ys', ?_, hsame.cons y⟩
      rw [List.map_cons, List.map_cons, hx, hys']
  | swap x x' xs =>
    -- Two elements at least, so two results at least.
    match ys, h with
    | [_], h => simp at h
    | y :: y' :: ys, h =>
      obtain ⟨hx', h⟩ := List.cons.inj h
      obtain ⟨hx, hxs⟩ := List.cons.inj h
      refine ⟨y' :: y :: ys, ?_, .swap y' y ys⟩
      simp only [List.map_cons, hx, hx', hxs]
  | trans _ _ ih ih' =>
    obtain ⟨ys', hys', hsame⟩ := ih h
    obtain ⟨ys'', hys'', hsame'⟩ := ih' hys'
    exact ⟨ys'', hys'', hsame.trans hsame'⟩

/-! ### Lengths of time -/

/-- Signed 64-bit nanoseconds can hold it. -/
def Span.Fits (d : Span) : Prop := d.nanos ≤ 9223372036854775807

theorem Span.ofNanos_toNanos (field : String) {d : Span} (h : d.Fits) :
    Span.ofNanos field d.toNanos = .ok d := by
  have hlt : d.nanos < 9223372036854775808 := Nat.lt_succ_of_le h
  have hint : (Int64.ofNat d.nanos).toInt = d.nanos := Int64.toInt_ofNat_of_lt hlt
  rw [Span.toNanos, if_pos hlt, Span.ofNanos, hint, if_neg (by omega)]
  rfl

theorem Span.fits_of_ofNanos {field : String} {n : Int64} {d : Span}
    (h : Span.ofNanos field n = .ok d) : d.Fits := by
  unfold Span.ofNanos at h
  split at h
  · cases h
  · obtain rfl := Except.ok.inj h
    have hmax : n.toInt ≤ 9223372036854775807 := n.toInt_le
    exact Int.toNat_le.mpr hmax

def Retention.spans (r : Retention) : List Span :=
  [r.period, r.blockSize, r.bufferFuture, r.bufferPast, r.expiryAfter]

def Options.spans (o : Options) : List Span := o.index.blockSize :: o.retention.spans

namespace Document

/-! ### Options -/

theorem Retention.toRetention_ofRetention {r : NamespaceTopology.Retention}
    (h : ∀ d ∈ r.spans, d.Fits) : (Retention.ofRetention r).toRetention = .ok r := by
  simp only [NamespaceTopology.Retention.spans, List.forall_mem_cons] at h
  obtain ⟨hperiod, hblock, hfuture, hpast, hafter, _⟩ := h
  simp only [toRetention, ofRetention, Span.ofNanos_toNanos _ hperiod, Span.ofNanos_toNanos _ hblock,
    Span.ofNanos_toNanos _ hfuture, Span.ofNanos_toNanos _ hpast, Span.ofNanos_toNanos _ hafter]
  rfl

theorem Index.toIndex_ofIndex {x : NamespaceTopology.Index} (h : x.blockSize.Fits) :
    Index.toIndex (some (Index.ofIndex x)) = .ok x := by
  simp only [toIndex, ofIndex, Span.ofNanos_toNanos _ h]
  rfl

theorem Entry.toOptions_ofOptions {o : Options} (h : ∀ d ∈ o.spans, d.Fits) :
    (Entry.ofOptions o).toOptions (.ofRetention o.retention) = .ok o := by
  obtain ⟨hindex, hretention⟩ := List.forall_mem_cons.mp h
  simp only [toOptions, ofOptions, Index.toIndex_ofIndex hindex,
    Retention.toRetention_ofRetention hretention]
  rfl

theorem Retention.fits_of_toRetention {r : Retention} {r' : NamespaceTopology.Retention}
    (h : r.toRetention = .ok r') : ∀ d ∈ r'.spans, d.Fits := by
  obtain ⟨period, hperiod, h⟩ := bind_eq_ok.1 h
  obtain ⟨block, hblock, h⟩ := bind_eq_ok.1 h
  obtain ⟨future, hfuture, h⟩ := bind_eq_ok.1 h
  obtain ⟨past, hpast, h⟩ := bind_eq_ok.1 h
  obtain ⟨expiryAfter, hafter, h⟩ := bind_eq_ok.1 h
  obtain rfl := Except.ok.inj h
  simp only [NamespaceTopology.Retention.spans, List.forall_mem_cons]
  exact ⟨Span.fits_of_ofNanos hperiod, Span.fits_of_ofNanos hblock, Span.fits_of_ofNanos hfuture,
    Span.fits_of_ofNanos hpast, Span.fits_of_ofNanos hafter, nofun⟩

/-- Also where the index is absent: then it is the usual one. -/
theorem Index.fits_of_toIndex {x : Option Index} {x' : NamespaceTopology.Index}
    (h : Index.toIndex x = .ok x') : x'.blockSize.Fits := by
  cases x with
  | none =>
    obtain rfl := Except.ok.inj h
    exact Nat.le_of_ble_eq_true rfl
  | some x =>
    obtain ⟨block, hblock, h⟩ := bind_eq_ok.1 h
    obtain rfl := Except.ok.inj h
    exact Span.fits_of_ofNanos hblock

theorem Entry.fits_of_toOptions {e : Entry} {r : Retention} {o : Options}
    (h : e.toOptions r = .ok o) : ∀ d ∈ o.spans, d.Fits := by
  obtain ⟨index, hindex, h⟩ := bind_eq_ok.1 h
  obtain ⟨retention, hretention, h⟩ := bind_eq_ok.1 h
  obtain rfl := Except.ok.inj h
  exact List.forall_mem_cons.mpr
    ⟨Index.fits_of_toIndex hindex, Retention.fits_of_toRetention hretention⟩

end Document

/-! ### Namespaces -/

theorem Namespace.make_self (n : Namespace) : Namespace.make n.id n.options = .ok n := by
  unfold Namespace.make
  rw [dif_neg n.id_ne_empty]
  split
  next hfault =>
    rw [n.options_valid] at hfault
    cases hfault
  next => rfl

theorem Namespace.eq_of_make {id : String} {o : Options} {n : Namespace}
    (h : Namespace.make id o = .ok n) : n.id = id ∧ n.options = o := by
  unfold Namespace.make at h
  split at h
  · cases h
  · split at h
    · cases h
    · obtain rfl := Except.ok.inj h
      exact ⟨rfl, rfl⟩

def Namespace.Fits (n : Namespace) : Prop := ∀ d ∈ n.options.spans, d.Fits

namespace Document

theorem Entry.toNamespace_ofOptions {n : Namespace} (h : n.Fits) :
    (Entry.ofOptions n.options).toNamespace n.id = .ok n := by
  have hretention : (Entry.ofOptions n.options).retention = some (.ofRetention n.options.retention) :=
    rfl
  simp only [toNamespace, hretention, Entry.toOptions_ofOptions h]
  exact n.make_self

theorem Entry.of_toNamespace {id : String} {e : Entry} {n : Namespace}
    (h : e.toNamespace id = .ok n) : n.id = id ∧ n.Fits := by
  unfold toNamespace at h
  split at h
  · cases h
  · split at h
    · cases h
    next hoptions =>
      obtain ⟨hid, rfl⟩ := Namespace.eq_of_make h
      exact ⟨hid, Entry.fits_of_toOptions hoptions⟩

theorem namespaces_ofOptions {ns : List Namespace} (h : ∀ n ∈ ns, n.Fits) :
    namespaces (ns.map fun n => (n.id, Entry.ofOptions n.options)) = .ok ns := by
  refine mapM_eq_ok.2 ?_
  rw [List.map_map]
  exact List.map_congr_left fun n hn => Entry.toNamespace_ofOptions (h n hn)

theorem of_namespaces {pairs : List (String × Entry)} {ns : List Namespace}
    (h : namespaces pairs = .ok ns) {n : Namespace} (hn : n ∈ ns) :
    n.Fits ∧ ∃ pair ∈ pairs, pair.1 = n.id := by
  have hmem : .ok n ∈ pairs.map fun pair => pair.2.toNamespace pair.1 := by
    rw [mapM_eq_ok.1 h]
    exact List.mem_map_of_mem hn
  obtain ⟨pair, hpair, hsame⟩ := List.mem_map.mp hmem
  obtain ⟨hid, hfits⟩ := Entry.of_toNamespace hsame
  exact ⟨hfits, pair, hpair, hid.symm⟩

end Document

/-! ### Topologies -/

namespace Topology

theorem extend_eq_ok {ns : List Namespace} {t t' : Topology} :
    extend t ns = .ok t' ↔ Keyed.Distinct Namespace.id ns ∧ (∀ n ∈ ns, t.find? n.id = none) ∧
      ns.foldl (fun t n => t.insert n) t = t' := by
  induction ns generalizing t with
  | nil => simp [extend, Keyed.Distinct]
  | cons n ns ih =>
    rw [extend, Keyed.Distinct, List.pairwise_cons, List.forall_mem_cons, List.foldl_cons]
    cases hfind : t.find? n.id with
    | some m => simp
    | none =>
      refine Iff.trans ih ⟨?_, ?_⟩
      · rintro ⟨hdistinct, hfree, hfold⟩
        have hfree := fun m hm => Keyed.find?_insert_eq_none_iff.mp (hfree m hm)
        exact ⟨⟨fun m hm => (hfree m hm).1, hdistinct⟩, ⟨rfl, fun m hm => (hfree m hm).2⟩, hfold⟩
      · rintro ⟨⟨hn, hdistinct⟩, ⟨_, hfree⟩, hfold⟩
        exact ⟨hdistinct, fun m hm => Keyed.find?_insert_eq_none_iff.mpr ⟨hn m hm, hfree m hm⟩, hfold⟩

theorem extend_empty_eq_ok {ns : List Namespace} {t : Topology} :
    extend Keyed.empty ns = .ok t ↔ ns.Perm t.items := by
  rw [extend_eq_ok]
  constructor
  · rintro ⟨hdistinct, _, rfl⟩
    exact (List.perm_ext_iff_of_nodup hdistinct.nodup (Keyed.distinct_items _).nodup).mpr
      fun n => (Keyed.mem_ofList_iff hdistinct).symm
  · intro h
    exact ⟨t.distinct_items.perm h, fun n _ => rfl, Keyed.ofList_of_perm h⟩

/-- A topology is built of its namespaces, in any order. -/
theorem ofNamespaces_eq_ok {ns : List Namespace} {t : Topology} :
    ofNamespaces ns = .ok t ↔ t.isEmpty = false ∧ ns.Perm t.items := by
  unfold ofNamespaces
  rw [bind_eq_ok]
  constructor
  · rintro ⟨t', ht', h⟩
    split at h
    · cases h
    next hsome =>
      obtain rfl := Except.ok.inj h
      exact ⟨Bool.eq_false_iff.mpr hsome, extend_empty_eq_ok.1 ht'⟩
  · rintro ⟨hsome, hperm⟩
    exact ⟨t, extend_empty_eq_ok.2 hperm, if_neg (Bool.eq_false_iff.mp hsome)⟩

/-- Neither does the order matter in which the entries of a document are looked at. -/
theorem ofEntries_perm {pairs pairs' : List (String × Document.Entry)} (hperm : pairs.Perm pairs')
    {t : Topology} (h : ofEntries pairs = .ok t) : ofEntries pairs' = .ok t := by
  obtain ⟨ns, hns, ht⟩ := bind_eq_ok.1 h
  obtain ⟨hsome, hitems⟩ := ofNamespaces_eq_ok.1 ht
  obtain ⟨ns', hns', hsame⟩ := map_ok_perm hperm (mapM_eq_ok.1 hns)
  exact bind_eq_ok.2 ⟨ns', mapM_eq_ok.2 hns',
    ofNamespaces_eq_ok.2 ⟨hsome, hsame.symm.trans hitems⟩⟩

theorem of_ofEntries {pairs : List (String × Document.Entry)} {t : Topology}
    (h : ofEntries pairs = .ok t) :
    t.isEmpty = false ∧ ∀ n ∈ t.items, n.Fits ∧ ∃ pair ∈ pairs, pair.1 = n.id := by
  obtain ⟨ns, hns, ht⟩ := bind_eq_ok.1 h
  obtain ⟨hsome, hitems⟩ := ofNamespaces_eq_ok.1 ht
  exact ⟨hsome, fun n hn => Document.of_namespaces hns (hitems.mem_iff.mpr hn)⟩

theorem ofDocument_toDocument {t : Topology} (hsome : t.isEmpty = false)
    (h : ∀ n ∈ t.items, n.Fits) : ofDocument t.toDocument = .ok t :=
  bind_eq_ok.2 ⟨t.items, Document.namespaces_ofOptions h,
    ofNamespaces_eq_ok.2 ⟨hsome, .refl t.items⟩⟩

/-- Documents of topologies that fit tell them apart. -/
theorem toDocument_inj {t t' : Topology} (hsome : t.isEmpty = false) (h : ∀ n ∈ t.items, n.Fits)
    (hsome' : t'.isEmpty = false) (h' : ∀ n ∈ t'.items, n.Fits)
    (hsame : t.toDocument = t'.toDocument) : t = t' := by
  have hread := ofDocument_toDocument hsome h
  rw [hsame, ofDocument_toDocument hsome' h'] at hread
  exact (Except.ok.inj hread).symm

end Topology

/-! ### Values -/

namespace Value

theorem topology_eq_ok {v : Value} {t : Topology} :
    v.topology = .ok t ↔ ∃ d, Document.decode v.data = some d ∧ Topology.ofDocument d = .ok t := by
  unfold topology
  split
  next hnone => simp [hnone]
  next d hd => simp [hd]

/-- A document is decoded without an order of its entries, and none is needed. -/
theorem topology_eq_ok_of_perm {v : Value} {d : Document} (hd : Document.decode v.data = some d)
    {pairs : List (String × Document.Entry)} (hperm : pairs.Perm d.items) {t : Topology} :
    v.topology = .ok t ↔ Topology.ofEntries pairs = .ok t := by
  rw [topology_eq_ok]
  constructor
  · rintro ⟨d', hd', h⟩
    obtain rfl := Option.some.inj (hd.symm.trans hd')
    exact Topology.ofEntries_perm hperm.symm h
  · intro h
    exact ⟨d, hd, Topology.ofEntries_perm hperm h⟩

/-- What a value describes has at least one namespace. -/
theorem isEmpty_of_topology {v : Value} {t : Topology} (h : v.topology = .ok t) :
    t.isEmpty = false := by
  obtain ⟨d, _, ht⟩ := topology_eq_ok.1 h
  exact (Topology.of_ofEntries ht).1

theorem topology_ne_empty {v : Value} {t : Topology} (h : v.topology = .ok t) :
    t ≠ Keyed.empty := by
  rintro rfl
  cases isEmpty_of_topology h

theorem fits_of_topology {v : Value} {t : Topology} (h : v.topology = .ok t) :
    ∀ n ∈ t.items, n.Fits := by
  obtain ⟨d, _, ht⟩ := topology_eq_ok.1 h
  exact fun n hn => ((Topology.of_ofEntries ht).2 n hn).1

end Value

end NamespaceTopology
