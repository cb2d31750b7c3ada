import NamespaceTopology.Proofs.Document.Rules
import NamespaceTopology.Proofs.Namespace.Construction

set_option autoImplicit false

/-!
Which documents describe a topology, and what is said of the others. A document is accepted if it has
entries and each of them keeps the rules; the topology then states what the entries state. The order in
which the entries are looked at decides neither this nor, where one entry alone is at fault, the error; and
an error is always true of the document.
-/
namespace NamespaceTopology

/-- The error of a traversal is that of one of the elements. -/
theorem exists_of_mapM_error {ε α β : Type} {f : α → Except ε β} {xs : List α} {cause : ε}
    (h : xs.mapM f = .error cause) : ∃ x ∈ xs, f x = .error cause := by
  induction xs with
  | nil => cases h
  | cons x xs ih =>
    rw [List.mapM_cons] at h
    cases hx : f x with
    | error cause' =>
      rw [hx] at h
      obtain rfl : cause' = cause := Except.error.inj h
      exact ⟨x, List.mem_cons_self, hx⟩
    | ok y =>
      cases hxs : xs.mapM f with
      | ok ys =>
        rw [hx, hxs] at h
        cases h
      | error cause' =>
        rw [hx, hxs] at h
        obtain rfl : cause' = cause := Except.error.inj h
        obtain ⟨x', hx', hcause⟩ := ih hxs
        exact ⟨x', List.mem_cons_of_mem x hx', hcause⟩

/-! ### Remainders -/

/-- There is no remainder by zero. -/
def remainder? (n m : Nat) : Option Nat := if m = 0 then none else some (n % m)

/-- The rule that an index breaks beside data in such blocks, where a remainder by zero leaves the question
without an answer. -/
def Index.verdict? (x : Index) (block : Span) : Option (Option OptionsFault) :=
  if x.enabled = false then some none
  else if x.blockSize.nanos = 0 then some (some .noIndexBlockSize)
  else (remainder? x.blockSize.nanos block.nanos).map fun rest =>
    if rest ≠ 0 then some (.unevenIndexBlock x.blockSize block) else none

def Options.verdict? (o : Options) : Option (Option OptionsFault) :=
  match o.retention.fault? with
  | some fault => some (some fault)
  | none => o.index.verdict? o.retention.blockSize

theorem Index.verdict?_eq (x : Index) {block : Span} (h : 0 < block.nanos) :
    x.verdict? block = some (x.fault? block) := by
  have hremainder : remainder? x.blockSize.nanos block.nanos = some (x.blockSize.nanos % block.nanos) :=
    if_neg (Nat.ne_of_gt h)
  unfold verdict? fault?
  rw [hremainder, Option.map_some]
  split
  · rfl
  · split <;> rfl

/-- By the time that the index is looked at, blocks of data are known not to be empty. -/
theorem Options.verdict?_eq (o : Options) : o.verdict? = some o.fault? := by
  unfold verdict? fault?
  cases h : o.retention.fault? with
  | some fault => rfl
  | none =>
    have hblock : 0 < o.retention.blockSize.nanos := (o.retention.fault?_eq_none_iff.mp h).1
    exact o.index.verdict?_eq hblock

namespace Document

open Rule (first?)

/-! ### Entries that keep the rules -/

def Retention.Lawful (r : Retention) : Prop :=
  (0 ≤ r.periodNanos.toInt ∧ 0 ≤ r.blockSizeNanos.toInt ∧ 0 ≤ r.bufferFutureNanos.toInt ∧
    0 ≤ r.bufferPastNanos.toInt ∧ 0 ≤ r.expiryAfterNanos.toInt) ∧
  (0 < r.blockSizeNanos.toInt ∧ r.blockSizeNanos.toInt ≤ r.periodNanos.toInt) ∧
  r.bufferFutureNanos.toInt < r.blockSizeNanos.toInt ∧
  r.bufferPastNanos.toInt < r.blockSizeNanos.toInt

/-- If the index is enabled, its blocks are made of whole blocks of data. -/
def Index.Lawful (r : Retention) (x : Index) : Prop :=
  0 ≤ x.blockSizeNanos.toInt ∧
  (x.enabled = true → 0 < x.blockSizeNanos.toInt ∧ r.blockSizeNanos.toInt ∣ x.blockSizeNanos.toInt)

def Entry.Lawful (id : String) (e : Entry) : Prop :=
  id ≠ "" ∧ ∃ r, e.retention = some r ∧ r.Lawful ∧ ∀ x, e.index = some x → x.Lawful r

theorem Retention.lawful_iff (r : Retention) :
    r.Lawful ↔ first? r.signRules = none ∧ first? r.limitRules = none := by
  rw [signRules_iff, Rule.first?_eq_none_iff]
  simp only [Lawful, limitRules, List.forall_mem_cons, decide_eq_false_iff_not]
  constructor
  · rintro ⟨hsigns, ⟨hpos, hle⟩, hfuture, hpast⟩
    refine ⟨hsigns, ?_, ?_, ?_, ?_, ?_, fun _ h => absurd h List.not_mem_nil⟩ <;> omega
  · rintro ⟨hsigns, hperiod, hblock, hfuture, hpast, hle, _⟩
    refine ⟨hsigns, ⟨?_, ?_⟩, ?_, ?_⟩ <;> omega

theorem Index.lawful_iff (r : Retention) (x : Option Index) :
    (∀ x', x = some x' → x'.Lawful r) ↔
      first? (Index.signRules x) = none ∧ first? (Index.limitRules r.blockSizeNanos x) = none := by
  rw [signRules_iff, Rule.first?_eq_none_iff]
  cases x with
  | none => simp [limitRules]
  | some x =>
    simp only [Option.some.injEq, forall_eq', Lawful, limitRules, List.forall_mem_cons,
      decide_eq_false_iff_not, not_and, Classical.not_not]
    constructor
    · rintro ⟨hsign, hlimit⟩
      refine ⟨hsign, fun henabled => ?_, fun henabled => (hlimit henabled).2,
        fun _ h => absurd h List.not_mem_nil⟩
      have hpos := (hlimit henabled).1
      omega
    · rintro ⟨hsign, hzero, hdvd, _⟩
      refine ⟨hsign, fun henabled => ⟨?_, hdvd henabled⟩⟩
      have hne := hzero henabled
      omega

theorem Entry.lawful_iff {id : String} {e : Entry} : e.Lawful id ↔ e.fault? id = none := by
  cases hr : e.retention with
  | none =>
    rw [fault?_of_none hr, Entry.Lawful, hr]
    simp
  | some r =>
    have hretention := r.lawful_iff
    have hindex := Index.lawful_iff r e.index
    rw [fault?_of_some hr, Entry.signRules, Entry.limitRules, Rule.first?_append, Rule.first?_append,
      Entry.Lawful, hr]
    by_cases hid : id = ""
    · simp [hid]
    · simp only [Option.some.injEq, exists_eq_left', hretention, hindex, hid, if_false, ne_eq,
        not_false_eq_true, true_and, Option.or_eq_none_iff, Option.map_eq_none_iff]
      tauto

instance (id : String) (e : Entry) : Decidable (e.Lawful id) := decidable_of_iff _ Entry.lawful_iff.symm

/-! ### What entries state -/

structure Retention.Tells (r : Retention) (r' : NamespaceTopology.Retention) : Prop where
  period : (r'.period.nanos : Int) = r.periodNanos.toInt
  blockSize : (r'.blockSize.nanos : Int) = r.blockSizeNanos.toInt
  bufferFuture : (r'.bufferFuture.nanos : Int) = r.bufferFutureNanos.toInt
  bufferPast : (r'.bufferPast.nanos : Int) = r.bufferPastNanos.toInt
  expiry : r'.expiry = r.expiry
  expiryAfter : (r'.expiryAfter.nanos : Int) = r.expiryAfterNanos.toInt

/-- Where there is no section, a disabled index in blocks of two hours. -/
def Index.Tells : Option Index → NamespaceTopology.Index → Prop
  | none, x' => x' = ⟨false, .ofSeconds 7200⟩
  | some x, x' => x'.enabled = x.enabled ∧ (x'.blockSize.nanos : Int) = x.blockSizeNanos.toInt

structure Entry.Tells (e : Entry) (o : Options) : Prop where
  bootstrap : o.bootstrap = e.bootstrap
  flush : o.flush = e.flush
  commitLog : o.commitLog = e.commitLog
  cleanup : o.cleanup = e.cleanup
  repair : o.repair = e.repair
  snapshot : o.snapshot = e.snapshot
  coldWrites : o.coldWrites = e.coldWrites
  retention : ∃ r, e.retention = some r ∧ r.Tells o.retention
  index : Index.Tells e.index o.index

theorem Retention.tells_stated {r : Retention} (h : r.Lawful) : r.Tells r.stated := by
  obtain ⟨⟨hperiod, hblock, hfuture, hpast, hafter⟩, _⟩ := h
  exact ⟨toInt_span hperiod, toInt_span hblock, toInt_span hfuture, toInt_span hpast, rfl,
    toInt_span hafter⟩

theorem Index.tells_stated {x : Option Index} (h : ∀ x', x = some x' → 0 ≤ x'.blockSizeNanos.toInt) :
    Index.Tells x (Index.stated x) := by
  cases x with
  | none => rfl
  | some x => exact ⟨rfl, toInt_span (h x rfl)⟩

theorem Entry.tells_of_toNamespace {id : String} {e : Entry} {n : Namespace}
    (h : e.toNamespace id = .ok n) : e.Tells n.options := by
  obtain ⟨_, r, hr, hoptions⟩ := eq_of_toNamespace h
  obtain ⟨_, r', hr', hlawful, hindex⟩ := lawful_iff.mpr (exists_toNamespace_iff.mp ⟨n, h⟩)
  obtain rfl : r = r' := Option.some.inj (hr.symm.trans hr')
  rw [hoptions]
  exact ⟨rfl, rfl, rfl, rfl, rfl, rfl, rfl, ⟨r, hr, Retention.tells_stated hlawful⟩,
    Index.tells_stated fun x hx => (hindex x hx).1⟩

def Entry.Has (id : String) (e : Entry) : NamespaceError → Prop
  | .missingField id' field => id' = id ∧ field = "retention options" ∧ e.retention = none
  | .invalidOptions id' reason => id' = id ∧ ∃ r, e.retention = some r ∧
      ∃ rule ∈ e.signRules r ++ e.limitRules r, rule.broken = true ∧ reason = rule.cause.message
  | .emptyId => id = ""
  | .noMetadata | .duplicate _ | .unreadable => False

theorem Entry.has_told {id : String} {e : Entry} {r : Retention} (hr : e.retention = some r)
    {rules : List (Rule OptionsFault)} (hrules : rules ⊆ e.signRules r ++ e.limitRules r)
    {fault : OptionsFault} (h : first? rules = some fault) : e.Has id (told id fault) := by
  obtain ⟨rule, hrule, hbroken, rfl⟩ := Rule.mem_of_first? h
  exact ⟨rfl, r, hr, rule, hrules hrule, hbroken, rfl⟩

theorem Entry.has_of_fault? {id : String} {e : Entry} {cause : NamespaceError}
    (h : e.fault? id = some cause) : e.Has id cause := by
  cases hr : e.retention with
  | none =>
    rw [fault?_of_none hr] at h
    obtain rfl := Option.some.inj h
    exact ⟨rfl, rfl, hr⟩
  | some r =>
    rw [fault?_of_some hr, Option.or_eq_some_iff] at h
    rcases h with hsign | ⟨_, hrest⟩
    · obtain ⟨fault, hfault, rfl⟩ := Option.map_eq_some_iff.mp hsign
      exact has_told hr (List.subset_append_left _ _) hfault
    · split at hrest
      next hid =>
        obtain rfl := Option.some.inj hrest
        exact hid
      next =>
        obtain ⟨fault, hfault, rfl⟩ := Option.map_eq_some_iff.mp hrest
        exact has_told hr (List.subset_append_right _ _) hfault

/-- The namespaces of entries have the ids under which these stand. -/
theorem ids_of_namespaces {pairs : List (String × Entry)} {ns : List Namespace}
    (h : namespaces pairs = .ok ns) : ns.map Namespace.id = pairs.map Prod.fst := by
  have hmap := mapM_eq_ok.mp h
  clear h
  induction pairs generalizing ns with
  | nil =>
    obtain rfl := List.map_eq_nil_iff.mp hmap.symm
    rfl
  | cons pair pairs ih =>
    cases ns with
    | nil => cases hmap
    | cons n ns =>
      obtain ⟨hn, hns⟩ := List.cons.inj hmap
      rw [List.map_cons, List.map_cons, (Entry.eq_of_toNamespace hn).1, ih hns]

theorem mem_namespaces {pairs : List (String × Entry)} {ns : List Namespace}
    (h : namespaces pairs = .ok ns) {pair : String × Entry} (hpair : pair ∈ pairs) :
    ∃ n ∈ ns, pair.2.toNamespace pair.1 = .ok n := by
  have hmem : pair.2.toNamespace pair.1 ∈ ns.map .ok :=
    mapM_eq_ok.mp h ▸ List.mem_map_of_mem (f := fun pair => pair.2.toNamespace pair.1) hpair
  obtain ⟨n, hn, hend⟩ := List.mem_map.mp hmem
  exact ⟨n, hn, hend.symm⟩

end Document

/-! ### Documents -/

namespace Topology

open Document

/-- The three ways in which looking at the entries of a document can end. -/
theorem ofEntries_cases {pairs : List (String × Entry)} (hids : (pairs.map Prod.fst).Nodup) :
    (pairs = [] ∧ ofEntries pairs = .error .noMetadata) ∨
    (∃ pair ∈ pairs, ∃ cause, pair.2.fault? pair.1 = some cause ∧ ofEntries pairs = .error cause) ∨
    (pairs ≠ [] ∧ (∀ pair ∈ pairs, pair.2.fault? pair.1 = none) ∧ ∃ t, ofEntries pairs = .ok t) := by
  unfold ofEntries
  cases hread : Document.namespaces pairs with
  | error cause =>
    obtain ⟨pair, hpair, hcause⟩ := exists_of_mapM_error hread
    exact Or.inr (Or.inl ⟨pair, hpair, cause, Entry.toNamespace_eq_error.mp hcause, rfl⟩)
  | ok ns =>
    have hsame := ids_of_namespaces hread
    cases pairs with
    | nil =>
      obtain rfl := Except.ok.inj hread
      exact Or.inl ⟨rfl, rfl⟩
    | cons pair pairs =>
      have hsome : ns ≠ [] := by
        rintro rfl
        cases hsame
      obtain ⟨t, ht⟩ := exists_ofNamespaces_iff.mpr ⟨hsome, hsame ▸ hids⟩
      refine Or.inr (Or.inr ⟨List.cons_ne_nil pair pairs, fun pair' hpair' => ?_, t, ht⟩)
      obtain ⟨n, _, hn⟩ := mem_namespaces hread hpair'
      exact Entry.exists_toNamespace_iff.mp ⟨n, hn⟩

theorem nodup_of_perm {d : Document} {pairs : List (String × Entry)} (h : pairs.Perm d.items) :
    (pairs.map Prod.fst).Nodup :=
  Keyed.distinct_iff_nodup.mp (d.distinct_items.perm h)

theorem exists_ofEntries_iff {d : Document} {pairs : List (String × Entry)} (h : pairs.Perm d.items) :
    (∃ t, ofEntries pairs = .ok t) ↔ d.items ≠ [] ∧ ∀ pair ∈ d.items, pair.2.Lawful pair.1 := by
  have hmem (pair : String × Entry) : pair ∈ pairs ↔ pair ∈ d.items := h.mem_iff
  have hnil : pairs = [] ↔ d.items = [] := by
    rw [← List.length_eq_zero_iff, h.length_eq, List.length_eq_zero_iff]
  rcases ofEntries_cases (nodup_of_perm h) with
    ⟨hnone, hend⟩ | ⟨pair, hpair, cause, hfault, hend⟩ | ⟨hsome, hlawful, hend⟩
  · rw [hend, hnil.mp hnone]
    simp
  · rw [hend]
    refine iff_of_false (fun ⟨t, ht⟩ => nomatch ht) ?_
    rintro ⟨_, hall⟩
    rw [Entry.lawful_iff.mp (hall pair ((hmem pair).mp hpair))] at hfault
    cases hfault
  · refine iff_of_true hend ⟨fun hd => hsome (hnil.mpr hd), fun pair hpair => ?_⟩
    exact Entry.lawful_iff.mpr (hlawful pair ((hmem pair).mpr hpair))

theorem tells_of_ofEntries {d : Document} {pairs : List (String × Entry)} (hperm : pairs.Perm d.items)
    {t : Topology} (h : ofEntries pairs = .ok t) :
    t.keys = d.keys ∧ ∀ pair ∈ d.items, ∃ n, t.find? pair.1 = some n ∧ pair.2.Tells n.options := by
  obtain ⟨ns, hns, ht⟩ := bind_eq_ok.mp h
  obtain ⟨_, hitems⟩ := ofNamespaces_eq_ok.mp ht
  constructor
  · have hkeys : (ns.map Namespace.id).Perm t.keys := hitems.map Namespace.id
    rw [Document.ids_of_namespaces hns] at hkeys
    exact Keyed.keys_eq_of_perm (hkeys.symm.trans (hperm.map Prod.fst))
  · intro pair hpair
    obtain ⟨n, hn, hend⟩ := Document.mem_namespaces hns (hperm.mem_iff.mpr hpair)
    refine ⟨n, Keyed.find?_eq_some_iff.mpr ⟨hitems.mem_iff.mp hn, ?_⟩, Entry.tells_of_toNamespace hend⟩
    exact (Entry.eq_of_toNamespace hend).1

/-- A document describes a topology if it has entries and every entry keeps the rules, and only then. The
topology has the ids of the document and states under each what the document does; and no remainder by
zero is ever asked for. -/
theorem ofEntries_accepts_lawful {d : Document} {pairs : List (String × Entry)}
    (hperm : pairs.Perm d.items) :
    ((∃ t, ofEntries pairs = .ok t) ↔ d.items ≠ [] ∧ ∀ pair ∈ d.items, pair.2.Lawful pair.1) ∧
    (∀ t, ofEntries pairs = .ok t →
      t.keys = d.keys ∧ ∀ pair ∈ d.items, ∃ n, t.find? pair.1 = some n ∧ pair.2.Tells n.options) ∧
    ∀ o : Options, o.verdict? = some o.fault? :=
  ⟨exists_ofEntries_iff hperm, fun _ => tells_of_ofEntries hperm, Options.verdict?_eq⟩

/-- Blocks of two nanoseconds beside an index in blocks of so many. -/
def indexed (n : Int64) : Entry :=
  ⟨true, false, false, false, false, some ⟨4, 2, 1, 1, true, 0⟩, false, some ⟨true, n⟩, false⟩

def indexedEntries (n : Int64) : Document := Keyed.ofList [("b", indexed 6), ("a", indexed n)]

/-- Six is three times two, and three is no multiple of two. -/
theorem ofEntries_accepts_lawful_indexed :
    (∃ t, ofEntries (indexedEntries 6).items.reverse = .ok t ∧ t.keys = ["a", "b"]) ∧
    ¬ ∃ t, ofEntries (indexedEntries 3).items.reverse = .ok t := by
  constructor
  · have haccepts := ofEntries_accepts_lawful (List.reverse_perm (indexedEntries 6).items)
    obtain ⟨t, ht⟩ := haccepts.1.mpr (by decide +kernel)
    exact ⟨t, ht, (haccepts.2.1 t ht).1⟩
  · have haccepts := ofEntries_accepts_lawful (List.reverse_perm (indexedEntries 3).items)
    exact fun ht => absurd (haccepts.1.mp ht) (by decide +kernel)

/-- Neither order of the entries is refused if the other is not. -/
theorem ofEntries_agree {d : Document} {pairs pairs' : List (String × Entry)}
    (hperm : pairs.Perm d.items) (hperm' : pairs'.Perm d.items) :
    (∃ t, ofEntries pairs = .ok t ∧ ofEntries pairs' = .ok t) ∨
      ∃ cause cause', ofEntries pairs = .error cause ∧ ofEntries pairs' = .error cause' := by
  cases hend : ofEntries pairs with
  | ok t => exact Or.inl ⟨t, rfl, ofEntries_perm (hperm.trans hperm'.symm) hend⟩
  | error cause =>
    refine Or.inr ⟨cause, ?_⟩
    cases hend' : ofEntries pairs' with
    | error cause' => exact ⟨cause', rfl, rfl⟩
    | ok t =>
      rw [ofEntries_perm (hperm'.trans hperm.symm) hend'] at hend
      cases hend

theorem cause_of_ofEntries {d : Document} {pairs : List (String × Entry)} (hperm : pairs.Perm d.items)
    {cause : NamespaceError} (h : ofEntries pairs = .error cause) :
    (cause = .noMetadata ∧ d.items = []) ∨ ∃ pair ∈ d.items, pair.2.fault? pair.1 = some cause := by
  rcases ofEntries_cases (nodup_of_perm hperm) with
    ⟨rfl, hend⟩ | ⟨pair, hpair, cause', hfault, hend⟩ | ⟨_, _, t, hend⟩
  · rw [hend] at h
    exact Or.inl ⟨(Except.error.inj h).symm, List.nil_perm.mp hperm⟩
  · rw [hend] at h
    obtain rfl := Except.error.inj h
    exact Or.inr ⟨pair, hperm.mem_iff.mp hpair, hfault⟩
  · rw [hend] at h
    cases h

/-- Where one entry alone is at fault, it is refused for that whatever stands before it. -/
theorem ofEntries_of_guilty {d : Document} {pairs : List (String × Entry)} (hperm : pairs.Perm d.items)
    {guilty : String × Entry} (hmem : guilty ∈ d.items)
    (halone : ∀ pair ∈ d.items, pair.2.Lawful pair.1 ↔ pair ≠ guilty) {cause : NamespaceError}
    (hfault : guilty.2.fault? guilty.1 = some cause) : ofEntries pairs = .error cause := by
  cases hend : ofEntries pairs with
  | ok t =>
    have hlawful := ((exists_ofEntries_iff hperm).mp ⟨t, hend⟩).2 guilty hmem
    exact absurd rfl ((halone guilty hmem).mp hlawful)
  | error cause' =>
    rcases cause_of_ofEntries hperm hend with ⟨_, hnone⟩ | ⟨pair, hpair, hfault'⟩
    · rw [hnone] at hmem
      cases hmem
    · -- Whichever entry is blamed breaks a rule, and only one of them does.
      have hsame : pair = guilty := by
        by_contra hne
        rw [Entry.lawful_iff.mp ((halone pair hpair).mpr hne)] at hfault'
        cases hfault'
      rw [hsame, hfault] at hfault'
      rw [Option.some.inj hfault']

/-- Two orders of the entries of a document lead to the same topology or both to an error, to the same one
if a single entry is at fault. An error says that the document is empty, or of one of its entries what is
wrong with it, the first thing in the order of the rules. -/
theorem ofEntries_blames_guilty {d : Document} {pairs pairs' : List (String × Entry)}
    (hperm : pairs.Perm d.items) (hperm' : pairs'.Perm d.items) :
    ((∃ t, ofEntries pairs = .ok t ∧ ofEntries pairs' = .ok t) ∨
      ∃ cause cause', ofEntries pairs = .error cause ∧ ofEntries pairs' = .error cause') ∧
    (∀ guilty ∈ d.items, (∀ pair ∈ d.items, pair.2.Lawful pair.1 ↔ pair ≠ guilty) →
      ∃ cause, guilty.2.fault? guilty.1 = some cause ∧
        ofEntries pairs = .error cause ∧ ofEntries pairs' = .error cause) ∧
    ∀ cause, ofEntries pairs = .error cause →
      (cause = .noMetadata ∧ d.items = []) ∨
      ∃ pair ∈ d.items, pair.2.fault? pair.1 = some cause ∧ pair.2.Has pair.1 cause := by
  refine ⟨ofEntries_agree hperm hperm', fun guilty hmem halone => ?_, fun cause h => ?_⟩
  · obtain ⟨cause, hfault⟩ : ∃ cause, guilty.2.fault? guilty.1 = some cause := by
      refine Option.ne_none_iff_exists'.mp fun hnone => ?_
      exact (halone guilty hmem).mp (Entry.lawful_iff.mpr hnone) rfl
    exact ⟨cause, hfault, ofEntries_of_guilty hperm hmem halone hfault,
      ofEntries_of_guilty hperm' hmem halone hfault⟩
  · rcases cause_of_ofEntries hperm h with hnone | ⟨pair, hpair, hfault⟩
    · exact Or.inl hnone
    · exact Or.inr ⟨pair, hpair, hfault, Entry.has_of_fault? hfault⟩

/-- In one order the first fault is the empty id, in the other the index. Without the entry under the empty
id the index alone is at fault. -/
theorem ofEntries_blames_guilty_indexed :
    ofEntries [("", indexed 6), ("a", indexed 3)] = .error .emptyId ∧
    ofEntries [("a", indexed 3), ("", indexed 6)] =
      .error (.invalidOptions "a" "index block size 3ns must be a multiple of data block size 2ns") ∧
    ofEntries (indexedEntries 3).items.reverse =
      .error (.invalidOptions "a" "index block size 3ns must be a multiple of data block size 2ns") := by
  refine ⟨by decide +kernel, by decide +kernel, ?_⟩
  have hblames := ofEntries_blames_guilty (List.reverse_perm (indexedEntries 3).items)
    (.refl (indexedEntries 3).items)
  obtain ⟨cause, hcause, hend, _⟩ := hblames.2.1 ("a", indexed 3) (by decide +kernel) (by decide +kernel)
  have hfirst : (indexed 3).fault? "a" =
      some (.invalidOptions "a" "index block size 3ns must be a multiple of data block size 2ns") := by
    decide +kernel
  rw [hfirst] at hcause
  rw [hend, Option.some.inj hcause]

end Topology

end NamespaceTopology
