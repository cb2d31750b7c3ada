import NamespaceTopology.Proofs.Document.Topology
import NamespaceTopology.Proofs.Document.Written

set_option autoImplicit false

/-!
Topologies in values. A topology that is written is read back if its lengths of time fit signed 64-bit
nanoseconds, and what is read from any bytes may be written again without a loss. Counts of bytes have 64
bits on the wire, so ids are bounded: no text and no value in memory has 2 ^ 63 bytes.
-/
namespace NamespaceTopology

namespace Document

open Wire

/-! ### Ids that are read -/

/-- What every step keeps holds at the end of a run that succeeds. -/
theorem foldlM_keeps {σ α : Type} {step : σ → α → Option σ} {P : σ → Prop} {xs : List α}
    (hstep : ∀ x ∈ xs, ∀ s t, P s → step s x = some t → P t) {s t : σ} (hs : P s)
    (h : xs.foldlM step s = some t) : P t := by
  induction xs generalizing s with
  | nil =>
    obtain rfl := Option.some.inj h
    exact hs
  | cons x xs ih =>
    rw [List.foldlM_cons] at h
    obtain ⟨s', hs', h⟩ := Option.bind_eq_some_iff.mp h
    have hkept := hstep x List.mem_cons_self s s' hs hs'
    exact ih (fun y hy => hstep y (List.mem_cons_of_mem x hy)) hkept h

theorem eq_counted_of_asBytes {payload : Payload} {bytes : List UInt8}
    (h : asBytes payload = some bytes) : payload = .counted bytes := by
  cases payload with
  | counted bytes' => rw [Option.some.inj h]
  | number | fixed | group => cases h

theorem id_le_of_readPair {depth : Nat} {bytes : List UInt8} {pair : String × Entry}
    (h : readPair depth bytes = some pair) : pair.1.utf8ByteSize ≤ bytes.length := by
  obtain ⟨fs, hfs, hfold⟩ := Option.bind_eq_some_iff.mp h
  refine foldlM_keeps (P := fun pair => pair.1.utf8ByteSize ≤ bytes.length) ?_ (Nat.zero_le _) hfold
  intro f hf before after hbefore hmerge
  unfold mergePair at hmerge
  split at hmerge
  · obtain ⟨counted, hcounted, hmerge⟩ := Option.bind_eq_some_iff.mp hmerge
    obtain ⟨id, hid, hmerge⟩ := Option.bind_eq_some_iff.mp hmerge
    obtain rfl := Option.some.inj hmerge
    have hle := readFields_counted_le hfs hf (eq_counted_of_asBytes hcounted)
    rwa [← Text.utf8_of_ofUtf8? hid, length_utf8] at hle
  · obtain ⟨counted, _, hmerge⟩ := Option.bind_eq_some_iff.mp hmerge
    obtain ⟨e, _, hmerge⟩ := Option.bind_eq_some_iff.mp hmerge
    obtain rfl := Option.some.inj hmerge
    exact hbefore
  · obtain rfl := Option.some.inj hmerge
    exact hbefore

/-- An id stands in the bytes from which it is read. -/
theorem id_le_of_decode {bytes : List UInt8} {d : Document} (h : decode bytes = some d) :
    ∀ pair ∈ d.items, pair.1.utf8ByteSize ≤ bytes.length := by
  obtain ⟨fs, hfs, hfold⟩ := Option.bind_eq_some_iff.mp h
  refine foldlM_keeps (P := fun d : Document => ∀ pair ∈ d.items, pair.1.utf8ByteSize ≤ bytes.length)
    ?_ (by simp [Keyed.empty]) hfold
  intro f hf before after hbefore hmerge
  unfold merge at hmerge
  split at hmerge
  · obtain ⟨counted, hcounted, hmerge⟩ := Option.bind_eq_some_iff.mp hmerge
    obtain ⟨pair, hpair, hmerge⟩ := Option.bind_eq_some_iff.mp hmerge
    obtain rfl := Option.some.inj hmerge
    have hle := readFields_counted_le hfs hf (eq_counted_of_asBytes hcounted)
    intro other hother
    rcases Keyed.mem_insert_iff.mp hother with rfl | ⟨hother, _⟩
    · exact Nat.le_trans (id_le_of_readPair hpair) hle
    · exact hbefore other hother
  · obtain rfl := Option.some.inj hmerge
    exact hbefore

end Document

namespace Value

theorem decode_written {t : Topology} (hids : ∀ n ∈ t.items, n.id.utf8ByteSize < 9223372036854775808)
    {pairs : List (String × Document.Entry)} (hperm : pairs.Perm t.toDocument.items) :
    Document.decode (Document.encodePairs pairs) = some t.toDocument := by
  have hpairs : ∀ pair ∈ pairs, pair.1.utf8ByteSize < 9223372036854775808 := by
    intro pair hpair
    obtain ⟨n, hn, rfl⟩ := List.mem_map.mp (hperm.mem_iff.mp hpair)
    exact hids n hn
  rw [Document.decode_encodePairs hpairs, Keyed.ofList_of_perm hperm]

theorem topology_of_written {t : Topology} (hsome : t.isEmpty = false)
    (hids : ∀ n ∈ t.items, n.id.utf8ByteSize < 9223372036854775808) (hfits : ∀ n ∈ t.items, n.Fits)
    (version : Int64) {pairs : List (String × Document.Entry)}
    (hperm : pairs.Perm t.toDocument.items) :
    (⟨version, Document.encodePairs pairs⟩ : Value).topology = .ok t :=
  topology_eq_ok.mpr ⟨_, decode_written hids hperm, Topology.ofDocument_toDocument hsome hfits⟩

/-- The entries of a topology, in any order, are read back as the topology if all lengths of time fit, and
only then. -/
theorem topology_of_written_iff {ns : List Namespace} {t : Topology}
    (h : Topology.ofNamespaces ns = .ok t)
    (hids : ∀ n ∈ ns, n.id.utf8ByteSize < 9223372036854775808) (version : Int64)
    {pairs : List (String × Document.Entry)} (hperm : pairs.Perm t.toDocument.items) :
    (⟨version, Document.encodePairs pairs⟩ : Value).topology = .ok t ↔
      ∀ n ∈ ns, ∀ d ∈ n.options.spans, d.nanos ≤ 9223372036854775807 := by
  obtain ⟨hsome, hitems⟩ := Topology.ofNamespaces_eq_ok.mp h
  constructor
  · intro hread n hn
    exact fits_of_topology hread n (hitems.mem_iff.mp hn)
  · intro hfits
    exact topology_of_written hsome
      (fun n hn => hids n (hitems.mem_iff.mpr hn)) (fun n hn => hfits n (hitems.mem_iff.mpr hn))
      version hperm

def expiring (id : String) (hid : id ≠ "") (d : Span) : Namespace where
  id
  options := { Options.default with retention := { Retention.default with expiryAfter := d } }
  id_ne_empty := hid
  options_valid := rfl

def expiringNamespaces (d : Span) : List Namespace :=
  [expiring "b" (by decide) d, expiring "a" (by decide) d]

def expiringTopology (d : Span) : Topology := Keyed.ofList (expiringNamespaces d)

def expiringValue (d : Span) : Value :=
  ⟨1, Document.encodePairs (expiringTopology d).toDocument.items.reverse⟩

/-- The longest time that is read back, and the shortest that is not. -/
theorem topology_of_written_expiring :
    (expiringValue ⟨9223372036854775807⟩).topology =
        .ok (expiringTopology ⟨9223372036854775807⟩) ∧
      (expiringValue ⟨9223372036854775808⟩).topology ≠
        .ok (expiringTopology ⟨9223372036854775808⟩) := by
  have hbuilt (d : Span) :
      Topology.ofNamespaces (expiringNamespaces d) = .ok (expiringTopology d) := rfl
  have hb : "b".utf8ByteSize < 9223372036854775808 := by decide
  have ha : "a".utf8ByteSize < 9223372036854775808 := by decide
  have hids (d : Span) : ∀ n ∈ expiringNamespaces d, n.id.utf8ByteSize < 9223372036854775808 := by
    simp only [expiringNamespaces, List.forall_mem_cons]
    exact ⟨hb, ha, fun n hn => absurd hn List.not_mem_nil⟩
  have hread (d : Span) := topology_of_written_iff (hbuilt d) (hids d) 1
    (List.reverse_perm (expiringTopology d).toDocument.items)
  constructor
  · exact (hread ⟨9223372036854775807⟩).mpr (by decide)
  · exact fun h => absurd ((hread ⟨9223372036854775808⟩).mp h) (by decide)

/-- What a value describes, whatever its bytes are, may be written again, in any order: what is written
describes the same. For it is not empty, each namespace stands under its own id, and all lengths of time
fit. Two values describe the same just if the same document is written for both. -/
theorem topology_rewritten {v : Value} {t : Topology} (hsize : v.data.length < 9223372036854775808)
    (h : v.topology = .ok t) :
    t.isEmpty = false ∧
    (∀ n ∈ t.items, ∀ d ∈ n.options.spans, d.nanos ≤ 9223372036854775807) ∧
    (∀ id n, t.find? id = some n → n.id = id) ∧
    (∀ (version : Int64) (pairs : List (String × Document.Entry)), pairs.Perm t.toDocument.items →
      (⟨version, Document.encodePairs pairs⟩ : Value).topology = .ok t) ∧
    ∀ (v' : Value) (t' : Topology), v'.topology = .ok t' →
      (t = t' ↔ t.toDocument = t'.toDocument) := by
  have hsome := isEmpty_of_topology h
  have hfits := fits_of_topology h
  obtain ⟨d, hd, ht⟩ := topology_eq_ok.mp h
  -- An id that was read is no longer than all that was read.
  have hids : ∀ n ∈ t.items, n.id.utf8ByteSize < 9223372036854775808 := by
    intro n hn
    obtain ⟨_, pair, hpair, hid⟩ := (Topology.of_ofEntries ht).2 n hn
    rw [← hid]
    exact Nat.lt_of_le_of_lt (Document.id_le_of_decode hd pair hpair) hsize
  refine ⟨hsome, hfits, fun id n hn => Keyed.key_of_find? hn, ?_, ?_⟩
  · intro version pairs hperm
    exact topology_of_written hsome hids hfits version hperm
  · intro v' t' h'
    exact ⟨congrArg Topology.toDocument,
      Topology.toDocument_inj hsome hfits (isEmpty_of_topology h') (fits_of_topology h')⟩

/-- An entry before its id, a number nobody knows, no index and one id twice. -/
def unusualValue : Value :=
  ⟨3, [10, 15, 18, 10, 50, 8, 8, 2, 16, 2, 24, 1, 32, 1, 10, 1, 97, 80, 5,
    10, 15, 10, 1, 97, 18, 10, 50, 8, 32, 1, 24, 1, 16, 4, 8, 4]⟩

theorem topology_rewritten_unusual : ∃ t, unusualValue.topology = .ok t ∧
    (⟨1, Document.encode t.toDocument⟩ : Value).topology = .ok t ∧
    Document.encode t.toDocument ≠ unusualValue.data := by
  have hread : unusualValue.topology.toOption.any (fun t =>
      Document.encode t.toDocument ≠ unusualValue.data) = true := by
    decide +kernel
  cases hu : unusualValue.topology with
  | error cause =>
    rw [hu] at hread
    cases hread
  | ok t =>
    rw [hu] at hread
    obtain ⟨_, _, _, hwritten, _⟩ := topology_rewritten (by decide) hu
    exact ⟨t, rfl, hwritten 1 _ (.refl _), by simpa [Except.toOption] using hread⟩

end Value

end NamespaceTopology
