import NamespaceTopology.Proofs.Document.Topology

set_option autoImplicit false

/-!
The rules that an entry of a document has to keep, on the numbers as the document states them and in the
order in which they are looked at. An entry is refused for the first rule that it breaks, and otherwise
describes the namespace that is read off it.
-/
namespace NamespaceTopology

/-! ### Rules in order -/

structure Rule (ε : Type) where
  broken : Bool
  cause : ε

namespace Rule

variable {ε δ α β : Type}

def map (f : ε → δ) (rule : Rule ε) : Rule δ := ⟨rule.broken, f rule.cause⟩

def first? (rules : List (Rule ε)) : Option ε := (rules.find? (·.broken)).map (·.cause)

def guarded (rules : List (Rule ε)) (a : α) : Except ε α :=
  match first? rules with
  | some cause => .error cause
  | none => .ok a

theorem first?_nil : first? ([] : List (Rule ε)) = none := rfl

theorem first?_cons (rule : Rule ε) (rules : List (Rule ε)) :
    first? (rule :: rules) = if rule.broken then some rule.cause else first? rules := by
  cases h : rule.broken <;> simp [first?, h]

theorem first?_append (xs ys : List (Rule ε)) : first? (xs ++ ys) = (first? xs).or (first? ys) := by
  induction xs with
  | nil => rfl
  | cons rule xs ih =>
    rw [List.cons_append, first?_cons, first?_cons, ih]
    split <;> rfl

theorem first?_map (f : ε → δ) (rules : List (Rule ε)) :
    first? (rules.map (map f)) = (first? rules).map f := by
  induction rules with
  | nil => rfl
  | cons rule rules ih =>
    rw [List.map_cons, first?_cons, first?_cons, ih, map]
    split <;> rfl

theorem first?_eq_none_iff {rules : List (Rule ε)} :
    first? rules = none ↔ ∀ rule ∈ rules, rule.broken = false := by
  simp [first?]

theorem mem_of_first? {rules : List (Rule ε)} {cause : ε} (h : first? rules = some cause) :
    ∃ rule ∈ rules, rule.broken = true ∧ rule.cause = cause := by
  obtain ⟨rule, hrule, hcause⟩ := Option.map_eq_some_iff.mp h
  exact ⟨rule, List.mem_of_find?_eq_some hrule, List.find?_some hrule, hcause⟩

/-- A rule that is looked at by a test of its own. -/
theorem ite_eq_first? {p : Prop} [Decidable p] {broken : Bool} {cause : ε} {rules : List (Rule ε)}
    {rest : Option ε} (hp : p ↔ broken = true) (hrest : rest = first? rules) :
    (if p then some cause else rest) = first? (⟨broken, cause⟩ :: rules) := by
  rw [first?_cons, hrest]
  by_cases h : p
  · rw [if_pos h, if_pos (hp.mp h)]
  · rw [if_neg h, if_neg fun hbroken => h (hp.mpr hbroken)]

/-- What is done with a guarded value is guarded by the rules of both. -/
theorem guarded_bind {xs ys : List (Rule ε)} {a : α} {b : β} {f : α → Except ε β}
    (h : f a = guarded ys b) : (guarded xs a >>= f) = guarded (xs ++ ys) b := by
  rw [guarded, guarded, first?_append]
  cases hxs : first? xs with
  | some cause => rfl
  | none => exact h

end Rule

namespace Document

open Rule (first? guarded guarded_bind ite_eq_first?)

/-! ### Reading numbers -/

/-- Nanoseconds as a length of time, of which nothing is left if they are negative. -/
def span (n : Int64) : Span := ⟨n.toInt.toNat⟩

def nonNegative (field : String) (n : Int64) : Rule OptionsFault :=
  ⟨n.toInt < 0, .negative field n⟩

def Retention.signRules (r : Retention) : List (Rule OptionsFault) :=
  [nonNegative "retention period" r.periodNanos, nonNegative "block size" r.blockSizeNanos,
    nonNegative "buffer future" r.bufferFutureNanos, nonNegative "buffer past" r.bufferPastNanos,
    nonNegative "block data expiry period" r.expiryAfterNanos]

def Index.signRules : Option Index → List (Rule OptionsFault)
  | none => []
  | some x => [nonNegative "index block size" x.blockSizeNanos]

def Retention.stated (r : Retention) : NamespaceTopology.Retention :=
  ⟨span r.periodNanos, span r.blockSizeNanos, span r.bufferFutureNanos, span r.bufferPastNanos,
    r.expiry, span r.expiryAfterNanos⟩

/-- The index that a section states, the usual one where there is none. -/
def Index.stated : Option Index → NamespaceTopology.Index
  | none => .default
  | some x => ⟨x.enabled, span x.blockSizeNanos⟩

def Entry.stated (e : Entry) (r : Retention) : Options :=
  ⟨e.bootstrap, e.flush, e.commitLog, e.cleanup, e.repair, e.snapshot, e.coldWrites, r.stated,
    Index.stated e.index⟩

/-- The index is read before the retention. -/
def Entry.signRules (e : Entry) (r : Retention) : List (Rule OptionsFault) :=
  Index.signRules e.index ++ r.signRules

theorem ofNanos_eq (field : String) (n : Int64) :
    Span.ofNanos field n = guarded [nonNegative field n] (span n) := by
  simp only [Span.ofNanos, guarded, Rule.first?_cons, Rule.first?_nil, nonNegative, decide_eq_true_eq]
  split <;> rfl

theorem Retention.toRetention_eq (r : Retention) :
    r.toRetention = guarded r.signRules r.stated := by
  simp only [toRetention, ofNanos_eq]
  apply guarded_bind
  apply guarded_bind
  apply guarded_bind
  apply guarded_bind
  apply guarded_bind
  rfl

theorem Index.toIndex_eq (x : Option Index) :
    Index.toIndex x = guarded (Index.signRules x) (Index.stated x) := by
  cases x with
  | none => rfl
  | some x =>
    simp only [toIndex, ofNanos_eq]
    apply guarded_bind
    rfl

theorem Entry.toOptions_eq (e : Entry) (r : Retention) :
    e.toOptions r = guarded (e.signRules r) (e.stated r) := by
  simp only [toOptions, Index.toIndex_eq, Retention.toRetention_eq]
  apply guarded_bind
  rw [← List.append_nil r.signRules]
  apply guarded_bind
  rfl

/-! ### Limits -/

def Retention.limitRules (r : Retention) : List (Rule OptionsFault) :=
  [⟨r.periodNanos.toInt = 0, .noRetention⟩,
    ⟨r.blockSizeNanos.toInt = 0, .noBlockSize⟩,
    ⟨r.blockSizeNanos.toInt ≤ r.bufferFutureNanos.toInt,
      .futureTooLong (span r.bufferFutureNanos) (span r.blockSizeNanos)⟩,
    ⟨r.blockSizeNanos.toInt ≤ r.bufferPastNanos.toInt,
      .pastTooLong (span r.bufferPastNanos) (span r.blockSizeNanos)⟩,
    ⟨r.periodNanos.toInt < r.blockSizeNanos.toInt,
      .retentionTooShort (span r.periodNanos) (span r.blockSizeNanos)⟩]

def Index.limitRules (block : Int64) : Option Index → List (Rule OptionsFault)
  | none => []
  | some x =>
    [⟨x.enabled ∧ x.blockSizeNanos.toInt = 0, .noIndexBlockSize⟩,
      ⟨x.enabled ∧ ¬ block.toInt ∣ x.blockSizeNanos.toInt,
        .unevenIndexBlock (span x.blockSizeNanos) (span block)⟩]

def Entry.limitRules (e : Entry) (r : Retention) : List (Rule OptionsFault) :=
  r.limitRules ++ Index.limitRules r.blockSizeNanos e.index

theorem toInt_span {n : Int64} (h : 0 ≤ n.toInt) : ((span n).nanos : Int) = n.toInt :=
  Int.toNat_of_nonneg h

theorem Retention.signRules_iff (r : Retention) :
    first? r.signRules = none ↔ 0 ≤ r.periodNanos.toInt ∧ 0 ≤ r.blockSizeNanos.toInt ∧
      0 ≤ r.bufferFutureNanos.toInt ∧ 0 ≤ r.bufferPastNanos.toInt ∧ 0 ≤ r.expiryAfterNanos.toInt := by
  rw [Rule.first?_eq_none_iff]
  simp [signRules, nonNegative]

theorem Index.signRules_iff (x : Option Index) :
    first? (Index.signRules x) = none ↔ ∀ x', x = some x' → 0 ≤ x'.blockSizeNanos.toInt := by
  rw [Rule.first?_eq_none_iff]
  cases x with
  | none => simp [signRules]
  | some x => simp [signRules, nonNegative]

theorem Retention.fault?_stated {r : Retention} (h : first? r.signRules = none) :
    r.stated.fault? = first? r.limitRules := by
  obtain ⟨hperiod, hblock, hfuture, hpast, _⟩ := r.signRules_iff.mp h
  have hp : ((span r.periodNanos).nanos : Int) = r.periodNanos.toInt := toInt_span hperiod
  have hb : ((span r.blockSizeNanos).nanos : Int) = r.blockSizeNanos.toInt := toInt_span hblock
  have hf : ((span r.bufferFutureNanos).nanos : Int) = r.bufferFutureNanos.toInt := toInt_span hfuture
  have ha : ((span r.bufferPastNanos).nanos : Int) = r.bufferPastNanos.toInt := toInt_span hpast
  simp only [NamespaceTopology.Retention.fault?, stated, limitRules]
  -- One rule after the other, each the same comparison of integers and of lengths of time.
  refine ite_eq_first? ?_ (ite_eq_first? ?_ (ite_eq_first? ?_ (ite_eq_first? ?_ (ite_eq_first? ?_ rfl))))
  all_goals
    rw [decide_eq_true_eq]
    omega

theorem Index.fault?_stated {x : Option Index} (h : first? (Index.signRules x) = none) {block : Int64}
    (hblock : 0 ≤ block.toInt) :
    (Index.stated x).fault? (span block) = first? (Index.limitRules block x) := by
  cases x with
  | none => rfl
  | some x =>
    obtain ⟨enabled, n⟩ := x
    have hn : ((span n).nanos : Int) = n.toInt := toInt_span ((Index.signRules_iff _).mp h _ rfl)
    have hb : ((span block).nanos : Int) = block.toInt := toInt_span hblock
    cases enabled with
    | false => rfl
    | true =>
      simp only [NamespaceTopology.Index.fault?, stated, limitRules, Bool.true_eq_false, if_false,
        true_and]
      apply ite_eq_first?
      · rw [decide_eq_true_eq]
        omega
      apply ite_eq_first?
      · rw [decide_eq_true_eq, ← hn, ← hb, Int.natCast_dvd_natCast, Nat.dvd_iff_mod_eq_zero]
      rfl

theorem Entry.fault?_stated {e : Entry} {r : Retention} (h : first? (e.signRules r) = none) :
    (e.stated r).fault? = first? (e.limitRules r) := by
  rw [signRules, Rule.first?_append, Option.or_eq_none_iff] at h
  have hblock : 0 ≤ r.blockSizeNanos.toInt := (r.signRules_iff.mp h.2).2.1
  rw [limitRules, Rule.first?_append, ← Retention.fault?_stated h.2, ← Index.fault?_stated h.1 hblock]
  rfl

/-! ### Entries -/

def told (id : String) (fault : OptionsFault) : NamespaceError := .invalidOptions id fault.message

/-- All rules for an entry under an id. The id is looked at after the numbers have been read and before
they are compared with each other. -/
def Entry.rules (id : String) (e : Entry) : List (Rule NamespaceError) :=
  match e.retention with
  | none => [⟨true, .missingField id "retention options"⟩]
  | some r => (e.signRules r).map (Rule.map (told id)) ++ ⟨id = "", .emptyId⟩ ::
      (e.limitRules r).map (Rule.map (told id))

def Entry.fault? (id : String) (e : Entry) : Option NamespaceError := first? (e.rules id)

theorem Entry.fault?_of_none {id : String} {e : Entry} (hr : e.retention = none) :
    e.fault? id = some (.missingField id "retention options") := by
  rw [Entry.fault?, rules, hr]
  rfl

theorem Entry.fault?_of_some {id : String} {e : Entry} {r : Retention} (hr : e.retention = some r) :
    e.fault? id = ((first? (e.signRules r)).map (told id)).or
      (if id = "" then some .emptyId else (first? (e.limitRules r)).map (told id)) := by
  rw [Entry.fault?, rules, hr]
  simp only [Rule.first?_append, Rule.first?_cons, Rule.first?_map, decide_eq_true_eq]

theorem make_cases (id : String) (o : Options) :
    (id = "" ∧ Namespace.make id o = .error .emptyId) ∨
    (id ≠ "" ∧ ∃ fault, o.fault? = some fault ∧ Namespace.make id o = .error (told id fault)) ∨
    (id ≠ "" ∧ o.fault? = none ∧ ∃ n, Namespace.make id o = .ok n ∧ n.id = id ∧ n.options = o) := by
  unfold Namespace.make
  split
  next hid => exact Or.inl ⟨hid, rfl⟩
  next hid =>
    refine Or.inr ?_
    split
    next fault hfault => exact Or.inl ⟨hid, fault, hfault, rfl⟩
    next hfault => exact Or.inr ⟨hid, hfault, _, rfl, rfl, rfl⟩

/-- An entry is refused for the first rule that it breaks, and otherwise the namespace has its id and the
options that are stated. -/
theorem Entry.toNamespace_cases (id : String) (e : Entry) :
    (∃ cause, e.fault? id = some cause ∧ e.toNamespace id = .error cause) ∨
    (e.fault? id = none ∧ ∃ r n, e.retention = some r ∧ e.toNamespace id = .ok n ∧ n.id = id ∧
      n.options = e.stated r) := by
  cases hr : e.retention with
  | none => exact Or.inl ⟨_, fault?_of_none hr, by simp only [toNamespace, hr]⟩
  | some r =>
    have hfault : e.fault? id = _ := fault?_of_some hr
    cases hsigns : first? (e.signRules r) with
    | some fault =>
      rw [hsigns] at hfault
      have hend : e.toNamespace id = .error (told id fault) := by
        simp only [toNamespace, hr, toOptions_eq, guarded, hsigns, told]
      exact Or.inl ⟨_, hfault, hend⟩
    | none =>
      -- All numbers are read, so the limits on them are those on the options that are stated.
      rw [hsigns, ← Entry.fault?_stated hsigns] at hfault
      have hmake : e.toNamespace id = Namespace.make id (e.stated r) := by
        simp only [toNamespace, hr, toOptions_eq, guarded, hsigns]
      rw [hmake]
      rcases make_cases id (e.stated r) with
        ⟨hid, hend⟩ | ⟨hid, fault, hf, hend⟩ | ⟨hid, hf, n, hend, hn⟩
      · rw [if_pos hid] at hfault
        exact Or.inl ⟨_, hfault, hend⟩
      · rw [if_neg hid, hf] at hfault
        exact Or.inl ⟨_, hfault, hend⟩
      · rw [if_neg hid, hf] at hfault
        exact Or.inr ⟨hfault, r, n, rfl, hend, hn⟩

theorem Entry.toNamespace_eq_error {id : String} {e : Entry} {cause : NamespaceError} :
    e.toNamespace id = .error cause ↔ e.fault? id = some cause := by
  rcases toNamespace_cases id e with ⟨cause', hfault, hend⟩ | ⟨hfault, r, n, _, hend, _⟩
  · rw [hfault, hend, Except.error.injEq, Option.some.injEq]
  · rw [hfault, hend]
    simp

theorem Entry.exists_toNamespace_iff {id : String} {e : Entry} :
    (∃ n, e.toNamespace id = .ok n) ↔ e.fault? id = none := by
  rcases toNamespace_cases id e with ⟨cause, hfault, hend⟩ | ⟨hfault, r, n, _, hend, _⟩
  · rw [hfault, hend]
    simp
  · exact ⟨fun _ => hfault, fun _ => ⟨n, hend⟩⟩

theorem Entry.eq_of_toNamespace {id : String} {e : Entry} {n : Namespace}
    (h : e.toNamespace id = .ok n) :
    n.id = id ∧ ∃ r, e.retention = some r ∧ n.options = e.stated r := by
  rcases toNamespace_cases id e with ⟨cause, _, hend⟩ | ⟨_, r, n', hr, hend, hid, hoptions⟩
  · rw [hend] at h
    cases h
  · rw [hend] at h
    obtain rfl := Except.ok.inj h
    exact ⟨hid, r, hr, hoptions⟩

end Document

end NamespaceTopology
