import Mathlib.Computability.RegularExpressions
import NamespaceTopology.Registry.Options

set_option autoImplicit false

/-!
Two checks look at the settings of a registry: one at the settings as they are loaded, in milliseconds, and
one at the options made of them, in nanoseconds. They agree but for a negative timeout, which the options
cannot show, and both take the same scopes.
-/
namespace NamespaceTopology

/-! ### Patterns of single characters -/

def between (first last : Char) : RegularExpression Char :=
  ((List.range' first.toNat (last.toNat + 1 - first.toNat)).map fun n => .char (Char.ofNat n)).sum

/-- The pattern matches a text of just one character, if it is one of those. -/
def MatchesOne (pattern : RegularExpression Char) (p : Char → Bool) : Prop :=
  ∀ w : List Char, w ∈ pattern.matches' ↔ ∃ c, w = [c] ∧ p c = true

theorem matchesOne_char (a : Char) : MatchesOne (.char a) fun c => c = a := by
  intro w
  have hword : w ∈ (RegularExpression.char a).matches' ↔ w = [a] := Iff.rfl
  rw [hword]
  simp

theorem MatchesOne.add {P Q : RegularExpression Char} {p q : Char → Bool} (hp : MatchesOne P p)
    (hq : MatchesOne Q q) : MatchesOne (P + Q) fun c => p c || q c := by
  intro w
  rw [RegularExpression.matches'_add, Language.mem_add, hp, hq, ← exists_or]
  simp only [← and_or_left, Bool.or_eq_true]

theorem mem_matches_sum {Ps : List (RegularExpression Char)} {w : List Char} :
    w ∈ Ps.sum.matches' ↔ ∃ P ∈ Ps, w ∈ P.matches' := by
  induction Ps with
  | nil => simp [Language.notMem_zero]
  | cons P Ps ih =>
    rw [List.sum_cons, RegularExpression.matches'_add, Language.mem_add, ih]
    simp

/-- Below the surrogates every number is the code point of a character. -/
theorem matchesOne_between {first last : Char} (h : last.toNat < 0xd800) :
    MatchesOne (between first last) fun c => first.toNat ≤ c.toNat ∧ c.toNat ≤ last.toNat := by
  intro w
  have hword (n : Nat) : w ∈ (RegularExpression.char (Char.ofNat n)).matches' ↔ w = [Char.ofNat n] :=
    Iff.rfl
  simp only [between, mem_matches_sum, List.mem_map, List.mem_range'_1, decide_eq_true_eq]
  constructor
  · rintro ⟨_, ⟨n, hn, rfl⟩, hw⟩
    have hvalid : n.isValidChar := Or.inl (by omega)
    have hcode : (Char.ofNat n).toNat = n := by
      rw [Char.ofNat, dif_pos hvalid]
      rfl
    exact ⟨_, (hword n).mp hw, by omega⟩
  · rintro ⟨c, rfl, hc⟩
    exact ⟨_, ⟨c.toNat, by omega, rfl⟩, (hword _).mpr (by rw [Char.ofNat_toNat])⟩

theorem MatchesOne.star {P : RegularExpression Char} {p : Char → Bool} (hp : MatchesOne P p)
    (w : List Char) : w ∈ P.star.matches' ↔ w.all p = true := by
  rw [RegularExpression.matches'_star, Language.mem_kstar, List.all_eq_true]
  constructor
  · rintro ⟨parts, rfl, hparts⟩ c hc
    obtain ⟨part, hpart, hmem⟩ := List.mem_flatten.mp hc
    obtain ⟨d, rfl, hd⟩ := (hp part).mp (hparts part hpart)
    rw [List.mem_singleton.mp hmem]
    exact hd
  · intro hw
    refine ⟨w.map fun c => [c], by simp [← List.flatMap_def], ?_⟩
    intro part hpart
    obtain ⟨c, hc, rfl⟩ := List.mem_map.mp hpart
    exact (hp _).mpr ⟨c, rfl, hw c hc⟩

/-- One character and then any number of others. -/
theorem mem_matches_head_star {P Q : RegularExpression Char} {p q : Char → Bool} (hp : MatchesOne P p)
    (hq : MatchesOne Q q) (w : List Char) :
    w ∈ (P * Q.star).matches' ↔ ∃ c cs, w = c :: cs ∧ p c = true ∧ cs.all q = true := by
  rw [RegularExpression.matches'_mul, Language.mem_mul]
  constructor
  · rintro ⟨v, hv, cs, hcs, rfl⟩
    obtain ⟨c, rfl, hc⟩ := (hp v).mp hv
    exact ⟨c, cs, rfl, hc, (hq.star cs).mp hcs⟩
  · rintro ⟨c, cs, rfl, hc, hcs⟩
    exact ⟨[c], (hp _).mpr ⟨c, rfl, hc⟩, cs, (hq.star cs).mpr hcs, rfl⟩

/-! ### Scopes -/

def scopeStart : RegularExpression Char := between 'a' 'z' + between 'A' 'Z' + .char '_'

/-- The pattern `[a-zA-Z_][a-zA-Z0-9_]*`. -/
def scopePattern : RegularExpression Char := scopeStart * (scopeStart + between '0' '9').star

theorem isUpper_iff (c : Char) : c.isUpper = true ↔ 65 ≤ c.toNat ∧ c.toNat ≤ 90 := by
  change decide (65 ≤ c.val ∧ c.val ≤ 90) = true ↔ _
  rw [decide_eq_true_iff, UInt32.le_iff_toNat_le, UInt32.le_iff_toNat_le]
  exact Iff.rfl

theorem isLower_iff (c : Char) : c.isLower = true ↔ 97 ≤ c.toNat ∧ c.toNat ≤ 122 := by
  change (decide (97 ≤ c.val) && decide (c.val ≤ 122)) = true ↔ _
  rw [Bool.and_eq_true, decide_eq_true_iff, decide_eq_true_iff, UInt32.le_iff_toNat_le,
    UInt32.le_iff_toNat_le]
  exact Iff.rfl

theorem isDigit_iff (c : Char) : c.isDigit = true ↔ 48 ≤ c.toNat ∧ c.toNat ≤ 57 := by
  change (decide (48 ≤ c.val) && decide (c.val ≤ 57)) = true ↔ _
  rw [Bool.and_eq_true, decide_eq_true_iff, decide_eq_true_iff, UInt32.le_iff_toNat_le,
    UInt32.le_iff_toNat_le]
  exact Iff.rfl

theorem MatchesOne.congr {P : RegularExpression Char} {p q : Char → Bool} (hp : MatchesOne P p)
    (h : ∀ c, p c = true ↔ q c = true) : MatchesOne P q := fun w =>
  (hp w).trans (exists_congr fun c => and_congr_right fun _ => h c)

theorem matchesOne_scopeStart : MatchesOne scopeStart fun c => c.isAlpha || c = '_' := by
  have hlower : MatchesOne (between 'a' 'z') Char.isLower :=
    (matchesOne_between (by decide)).congr fun c => by
      rw [isLower_iff]
      exact decide_eq_true_iff
  have hupper : MatchesOne (between 'A' 'Z') Char.isUpper :=
    (matchesOne_between (by decide)).congr fun c => by
      rw [isUpper_iff]
      exact decide_eq_true_iff
  refine ((hlower.add hupper).add (matchesOne_char '_')).congr fun c => ?_
  change _ ↔ (c.isUpper || c.isLower || decide (c = '_')) = true
  rw [Bool.or_comm c.isLower]

theorem matchesOne_scopeRest :
    MatchesOne (scopeStart + between '0' '9') fun c => c.isAlphanum || c = '_' := by
  have hdigit : MatchesOne (between '0' '9') Char.isDigit :=
    (matchesOne_between (by decide)).congr fun c => by
      rw [isDigit_iff]
      exact decide_eq_true_iff
  refine (matchesOne_scopeStart.add hdigit).congr fun c => ?_
  change _ ↔ (c.isAlpha || c.isDigit || decide (c = '_')) = true
  rw [Bool.or_right_comm]

theorem isScope_iff (s : String) : isScope s = true ↔ s.toList ∈ scopePattern.matches' := by
  rw [scopePattern, mem_matches_head_star matchesOne_scopeStart matchesOne_scopeRest, isScope]
  cases s.toList with
  | nil => simp
  | cons c cs => simp

/-! ### The two checks -/

theorem Settings.validate_isOk_iff (s : Settings) : s.validate.toBool = true ↔
    s.registry.validate = .ok () ∧ s.monitoring.validate.toBool = true := by
  unfold Settings.validate
  cases s.registry.validate with
  | error e => simp [bind, Except.bind, Except.toBool]
  | ok u => simp [bind, Except.bind]

def DynamicOptions.forClient (client : Client) (exposition : String) (s : Settings) : DynamicOptions :=
  { ofSettings s with client := some client, exposition }

theorem nanos_reportInterval_eq_zero_iff (s : MonitoringSettings) :
    s.reportInterval.nanos = 0 ↔ s.reportIntervalMs = 0 := by
  rw [← UInt64.toNat_inj]
  exact Nat.mul_eq_zero.trans (or_iff_left (by decide))

/-- The two checks agree, but for the sign of the timeout. -/
theorem validate_forClient_iff (s : Settings) (client : Client) (exposition : String) :
    s.validate.toBool = true ↔ 0 ≤ s.registry.initTimeoutMs.toInt ∧
      (DynamicOptions.forClient client exposition s).validate = .ok () := by
  rw [s.validate_isOk_iff, FollowSettings.validate_eq_ok_iff, MonitoringSettings.validate_isOk_iff,
    DynamicOptions.validate_eq_ok_iff]
  have hinterval := not_congr (nanos_reportInterval_eq_zero_iff s.monitoring)
  simp only [DynamicOptions.forClient, DynamicOptions.ofSettings, ne_eq, reduceCtorEq,
    not_false_eq_true, true_and]
  tauto

end NamespaceTopology
