import NamespaceTopology.Number.Binary64
import NamespaceTopology.Proofs.Store.Signals

set_option autoImplicit false

/-!
The versions that a store gives out by itself. They count the values that were stored under the key since
it was absent last, up to the greatest version, so each value is newer than those before it. Deleting a
key lets the count begin again.
-/
namespace NamespaceTopology.Store

/-- Whether an event stores a value under the key with a version that is given from outside. -/
def Event.dictates (key : String) : Event → Bool
  | .setWithVersion k _ _ => k = key
  | _ => false

def Event.clears (key : String) : Event → Bool
  | .delete k | .closeKey k => k = key
  | _ => false

def storedAlong (key : String) : Store → List Event → List Int64
  | _, [] => []
  | s, e :: es =>
    ((e.written? key s).join.map Value.version).toList ++ storedAlong key (s.occur e) es

/-- The versions stored under a key after an event since the key was absent last, where there were `vs`
before. -/
def stored (key : String) (vs : List Int64) (s : Store) (e : Event) : List Int64 :=
  match e.written? key s with
  | none => vs
  | some none => []
  | some (some v) => vs ++ [v.version]

def storedSince (key : String) : List Int64 → Store → List Event → List Int64
  | vs, _, [] => vs
  | vs, s, e :: es => storedSince key (stored key vs s e) (s.occur e) es

/-! ### The next version -/

theorem toInt_maxValue : Int64.maxValue.toInt = maxInt64 := rfl

theorem toInt_le_maxInt64 (n : Int64) : n.toInt ≤ maxInt64 := n.toInt_le

theorem toInt_succ {n : Int64} (h : n ≠ .maxValue) : (n + 1).toInt = n.toInt + 1 := by
  have hne : n.toInt ≠ maxInt64 := fun heq => h (Int64.toInt_inj.mp (heq.trans toInt_maxValue.symm))
  have hle := toInt_le_maxInt64 n
  have hlow : -9223372036854775808 ≤ n.toInt := n.minValue_le_toInt
  have hone : (1 : Int64).toInt = 1 := rfl
  rw [Int64.toInt_add, hone]
  unfold maxInt64 at hne hle
  rw [Int.bmod_eq_of_le] <;> omega

theorem toInt_nextVersion (v : Value) :
    (nextVersion (some v)).toInt = min (v.version.toInt + 1) maxInt64 := by
  have hle := toInt_le_maxInt64 v.version
  simp only [nextVersion]
  by_cases h : v.version = .maxValue
  · rw [if_pos h, h, toInt_maxValue]
    omega
  · have hsucc := toInt_succ h
    have hle' := toInt_le_maxInt64 (v.version + 1)
    rw [if_neg h]
    omega

/-! ### Counting -/

/-- The versions that were stored since the key was absent last count up from one, and the key holds the
last of them. -/
structure Counted (key : String) (vs : List Int64) (s : Store) : Prop where
  held : (s.get key).map Value.version = vs.getLast?
  counts : ∀ (i : Nat) (n : Int64), vs[i]? = some n → n.toInt = min (i + 1 : Int) maxInt64

variable {key : String} {vs : List Int64} {s : Store}

theorem counted_empty (key : String) : Counted key [] empty := ⟨rfl, nofun⟩

theorem Counted.toInt_next (h : Counted key vs s) :
    (nextVersion (s.get key)).toInt = min (vs.length + 1 : Int) maxInt64 := by
  have hheld := h.held
  cases hget : s.get key with
  | none =>
    have hnil : vs = [] := by simpa [hget] using hheld.symm
    rw [hnil]
    rfl
  | some v =>
    rw [hget, Option.map_some, List.getLast?_eq_getElem?] at hheld
    have hlast := h.counts _ _ hheld.symm
    have hlt := (List.getElem?_eq_some_iff.mp hheld.symm).1
    rw [toInt_nextVersion, hlast]
    omega

theorem Counted.occur (h : Counted key vs s) (hs : s.Sound) {e : Event}
    (he : e.dictates key = false) : Counted key (stored key vs s e) (s.occur e) := by
  have hget := hs.get_occur key e
  unfold stored
  cases hwritten : e.written? key s with
  | none =>
    rw [hwritten, Option.getD_none] at hget
    exact ⟨hget ▸ h.held, h.counts⟩
  | some content =>
    rw [hwritten, Option.getD_some] at hget
    cases content with
    | none => exact ⟨by rw [hget]; rfl, nofun⟩
    | some v =>
      have hversion : v.version = nextVersion (s.get key) := by
        cases e with
        | set k data =>
          obtain ⟨_, hv⟩ := Option.ite_none_right_eq_some.mp hwritten
          rw [← Option.some.inj (Option.some.inj hv)]
        | setWithVersion k version data =>
          obtain ⟨hk, _⟩ := Option.ite_none_right_eq_some.mp hwritten
          simp [Event.dictates, hk] at he
        | delete k | closeKey k =>
          obtain ⟨_, hv⟩ := Option.ite_none_right_eq_some.mp hwritten
          cases hv
        | _ => cases hwritten
      refine ⟨?_, fun i n hi => ?_⟩
      · rw [hget, List.getLast?_concat]
        rfl
      · rcases Nat.lt_or_ge i vs.length with hlt | hge
        · rw [List.getElem?_append_left hlt] at hi
          exact h.counts i n hi
        · rw [List.getElem?_append_right hge] at hi
          obtain ⟨hlast, hn⟩ := List.getElem?_eq_some_iff.mp hi
          have hi : i = vs.length := by
            rw [List.length_singleton] at hlast
            omega
          subst hi
          rw [← h.toInt_next, ← hversion, ← hn]
          simp

theorem Counted.run (h : Counted key vs s) (hs : s.Sound) {es : List Event}
    (hes : ∀ e ∈ es, e.dictates key = false) :
    Counted key (storedSince key vs s es) (s.run es) := by
  induction es generalizing s vs with
  | nil => exact h
  | cons e es ih =>
    exact ih (h.occur hs (hes e List.mem_cons_self)) (hs.occur e) fun k hk =>
      hes k (List.mem_cons_of_mem e hk)

theorem written?_ne_none {e : Event} (he : e.clears key = false) : e.written? key s ≠ some none := by
  intro hnone
  cases e with
  | set k data | setWithVersion k version data =>
    obtain ⟨_, hv⟩ := Option.ite_none_right_eq_some.mp hnone
    cases Option.some.inj hv
  | delete k | closeKey k =>
    obtain ⟨hk, _⟩ := Option.ite_none_right_eq_some.mp hnone
    simp [Event.clears, hk] at he
  | _ => cases hnone

/-- Without an event that clears the key, nothing that was stored is forgotten. -/
theorem storedSince_eq (vs : List Int64) {es : List Event} (hes : ∀ e ∈ es, e.clears key = false) :
    storedSince key vs s es = vs ++ storedAlong key s es := by
  induction es generalizing s vs with
  | nil => exact (List.append_nil vs).symm
  | cons e es ih =>
    have hstored : stored key vs s e =
        vs ++ ((e.written? key s).join.map Value.version).toList := by
      have hkept := written?_ne_none (s := s) (hes e List.mem_cons_self)
      unfold stored
      cases hwritten : e.written? key s with
      | none => exact (List.append_nil vs).symm
      | some content =>
        cases content with
        | none => exact absurd hwritten hkept
        | some v => rfl
    rw [storedSince, storedAlong, ih _ fun k hk => hes k (List.mem_cons_of_mem e hk), hstored,
      List.append_assoc]

/-- A value is stored under the number of values that the key has had since it was absent last, this one
included, and under the greatest version if there are more. So it is newer than each of them, until the
greatest version is reached, and its version is one just if it is the first of them. If the key was never
deleted or closed, these are all values that it has had. -/
theorem set_exceeds_stored (key : String) (es : List Event)
    (hes : ∀ e ∈ es, e.dictates key = false) (data : List UInt8) :
    let s := empty.run es
    let vs := storedSince key [] empty es
    let version := (s.set key data).2
    version.toInt = min (vs.length + 1 : Int) maxInt64 ∧
    (∀ v : Value, v.version ∈ vs → v.version ≠ .maxValue →
      (⟨version, data⟩ : Value).isNewer (some v) = true) ∧
    (version = 1 ↔ vs = []) ∧
    ((∀ e ∈ es, e.clears key = false) → vs = storedAlong key empty es) := by
  intro s vs version
  have hcounted : Counted key vs s := (counted_empty key).run sound_empty hes
  have hversion : version.toInt = min (vs.length + 1 : Int) maxInt64 := hcounted.toInt_next
  refine ⟨hversion, ?_, ?_, fun hclears => storedSince_eq [] hclears⟩
  · intro v hv hmax
    obtain ⟨i, hi⟩ := List.getElem?_of_mem hv
    have hcount := hcounted.counts i v.version hi
    have hlt := (List.getElem?_eq_some_iff.mp hi).1
    have hne : v.version.toInt ≠ maxInt64 := fun heq =>
      hmax (Int64.toInt_inj.mp (heq.trans toInt_maxValue.symm))
    rw [Value.isNewer_some]
    change v.version.toInt < version.toInt
    omega
  · have hone : version = 1 ↔ version.toInt = 1 := Int64.toInt_inj.symm
    rw [hone, hversion, ← List.length_eq_zero_iff]
    unfold maxInt64
    omega

theorem set_exceeds_stored_small :
    (empty.run [.set "k" [1], .delete "k", .set "k" [2], .set "l" [], .set "k" [3]]).set "k" [4] =
      (empty.run [.set "k" [1], .delete "k", .set "k" [2], .set "l" [], .set "k" [3], .set "k" [4]], 3) ∧
    (⟨3, [4]⟩ : Value).isNewer (some ⟨2, [3]⟩) = true := by
  have hset : ((empty.run [.set "k" [1], .delete "k", .set "k" [2], .set "l" [], .set "k" [3]]).set "k"
      [4]).2 = 3 := by decide
  obtain ⟨_, hnewer, _⟩ := set_exceeds_stored "k"
    [.set "k" [1], .delete "k", .set "k" [2], .set "l" [], .set "k" [3]] (by decide) [4]
  exact ⟨Prod.ext rfl hset, hset ▸ hnewer ⟨2, [3]⟩ (by decide) (by decide)⟩

/-- A value that is stored after the key was deleted is not newer than those before. -/
theorem set_after_delete_not_newer : ¬ ∀ (key : String) (es : List Event) (data : List UInt8),
    (∀ e ∈ es, e.dictates key = false ∧ e.ends key = false) →
    ∀ v ∈ storedAlong key empty es, v ≠ .maxValue →
      v.toInt < ((empty.run es).set key data).2.toInt := by
  intro h
  have hlt := h "k" [.set "k" [], .set "k" [], .delete "k"] [] (by decide) 2 (by decide) (by decide)
  exact absurd hlt (by decide)

end NamespaceTopology.Store
