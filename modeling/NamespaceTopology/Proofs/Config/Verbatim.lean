import NamespaceTopology.Proofs.Config.Overrides
import NamespaceTopology.Proofs.Config.Scopes

set_option autoImplicit false

/-!
Texts from the environment. A value that reads as a truth value or a number is taken for one and spelled
anew where a text is asked for, so not every text arrives as it was given. One that holds anything but
digits, signs, points and exponents does, unless it is one of a few words.
-/
namespace NamespaceTopology

namespace Config

/-! ### What reads as a number -/

def isNumeral (c : Char) : Bool := Decimal.isDigit c || "+-.eE".toList.contains c

theorem isNumeral_of_isDigit {c : Char} (h : Decimal.isDigit c = true) : isNumeral c = true := by
  rw [isNumeral, h, Bool.true_or]

theorem isDigit_of_readDigits {value n : Nat} {cs : List Char} (h : Decimal.readDigits 10 value cs = some n) :
    ∀ c ∈ cs, Decimal.isDigit c = true := by
  induction cs generalizing value with
  | nil => exact fun c hc => by cases hc
  | cons d cs ih =>
    rw [Decimal.readDigits] at h
    split at h
    next digit hdigit =>
      intro c hc
      rcases List.mem_cons.mp hc with rfl | hc
      · rw [Decimal.isDigit, hdigit]
        rfl
      · exact ih h c hc
    next => cases h

theorem isDigit_of_readNat {n : Nat} {cs : List Char} (h : Decimal.readNat 10 cs = some n) :
    ∀ c ∈ cs, Decimal.isDigit c = true := by
  cases cs with
  | nil => cases h
  | cons c cs => exact isDigit_of_readDigits h

/-- Only a sign is passed over before a number. -/
theorem isNumeral_of_readSign {cs : List Char} (h : ∀ c ∈ (Decimal.readSign cs).2, isNumeral c = true) :
    ∀ c ∈ cs, isNumeral c = true := by
  unfold Decimal.readSign at h
  split at h
  · exact List.forall_mem_cons.mpr ⟨by decide, h⟩
  · exact List.forall_mem_cons.mpr ⟨by decide, h⟩
  · exact h

theorem isNumeral_of_readInt {n : Int} {cs : List Char} (h : Decimal.readInt cs = some n) :
    ∀ c ∈ cs, isNumeral c = true := by
  unfold Decimal.readInt at h
  cases hnat : Decimal.readNat 10 (Decimal.readSign cs).2 with
  | none =>
    simp only [hnat] at h
    cases h
  | some m => exact isNumeral_of_readSign fun c hc => isNumeral_of_isDigit (isDigit_of_readNat hnat c hc)

theorem isNumeral_of_readExponent {n : Int} {cs : List Char} (h : Decimal.readExponent cs = some n) :
    ∀ c ∈ cs, isNumeral c = true := by
  cases cs with
  | nil => exact fun c hc => by cases hc
  | cons c cs =>
    rw [Decimal.readExponent] at h
    split at h
    next he =>
      refine List.forall_mem_cons.mpr ⟨?_, isNumeral_of_readInt h⟩
      rcases he with rfl | rfl <;> decide
    next => cases h

theorem isNumeral_of_parts {whole fraction rest : List Char} {n : Nat} {e : Int}
    (hn : Decimal.readNat 10 (whole ++ fraction) = some n) (he : Decimal.readExponent rest = some e) :
    ∀ c, c ∈ whole ∨ c ∈ fraction ∨ c ∈ rest → isNumeral c = true := by
  rintro c (hc | hc | hc)
  · exact isNumeral_of_isDigit (isDigit_of_readNat hn c (List.mem_append_left _ hc))
  · exact isNumeral_of_isDigit (isDigit_of_readNat hn c (List.mem_append_right _ hc))
  · exact isNumeral_of_readExponent he c hc

theorem isNumeral_of_readFinite {negative : Bool} {x : Binary64} {cs : List Char}
    (h : Decimal.readFinite negative cs = some x) : ∀ c ∈ cs, isNumeral c = true := by
  intro c hc
  rw [← List.takeWhile_append_dropWhile (p := Decimal.isDigit) (l := cs), List.mem_append] at hc
  unfold Decimal.readFinite at h
  simp only at h
  generalize cs.takeWhile Decimal.isDigit = whole at h hc
  generalize cs.dropWhile Decimal.isDigit = rest at h hc
  split at h
  next n e hn he =>
    by_cases hpoint : ∃ after, rest = '.' :: after
    · obtain ⟨after, rfl⟩ := hpoint
      rcases hc with hc | hc
      · exact isNumeral_of_parts hn he c (Or.inl hc)
      · rcases List.mem_cons.mp hc with rfl | hc
        · decide
        · rw [← List.takeWhile_append_dropWhile (p := Decimal.isDigit) (l := after), List.mem_append] at hc
          exact isNumeral_of_parts hn he c (Or.inr hc)
    · split at hn
      next after => exact absurd ⟨after, rfl⟩ hpoint
      next =>
        split at he
        next => exact absurd ⟨_, rfl⟩ hpoint
        next => exact isNumeral_of_parts hn he c (hc.imp_right Or.inr)
  next => cases h

/-! ### What is no text -/

/-- The words that are read as truth values, and as numbers that are not finite. -/
def IsWord (s : String) : Prop :=
  lower s ∈ ["true", "false"] ∨
    String.ofList ((Decimal.readSign s.toList).2.map Char.toLower) ∈ ["nan", "inf", "infinity"]

instance (s : String) : Decidable (IsWord s) := inferInstanceAs (Decidable (_ ∨ _))

theorem envValue_eq_text {s : String} (hword : ¬IsWord s)
    (hchar : ∃ c ∈ s.toList, isNumeral c = false) : envValue s = .text s := by
  obtain ⟨c, hc, hnumeral⟩ := hchar
  have hnot : ¬ ∀ c ∈ s.toList, isNumeral c = true := fun hall => by
    rw [hall c hc] at hnumeral
    cases hnumeral
  simp only [IsWord, List.mem_cons, List.not_mem_nil, or_false, not_or] at hword
  obtain ⟨⟨htrue, hfalse⟩, hnan, hinf, hinfinity⟩ := hword
  have hint : Decimal.readInt s.toList = none := by
    cases hread : Decimal.readInt s.toList with
    | none => rfl
    | some n => exact absurd (isNumeral_of_readInt hread) hnot
  have hfloat : Decimal.readBinary64 s.toList = none := by
    cases hread : Decimal.readFinite (Decimal.readSign s.toList).1 (Decimal.readSign s.toList).2 with
    | none =>
      unfold Decimal.readBinary64
      simp only [hnan, hinf, hinfinity, hread]
      simp
    | some x => exact absurd (isNumeral_of_readSign (isNumeral_of_readFinite hread)) hnot
  simp only [envValue, if_neg htrue, if_neg hfalse, hint, envValue.envNumber, hfloat]

/-! ### Integers in decimal -/

theorem digit?_of_isDigit {c : Char} (h : c.isDigit = true) : Decimal.digit? 10 c = some (c.toNat - 48) := by
  obtain ⟨hlow, hhigh⟩ := (isDigit_iff c).mp h
  simp only [Decimal.digit?, hlow, hhigh, decide_true, Bool.and_self, if_true]
  exact if_pos (by omega)

theorem readDigits_of_isDigit {cs : List Char} (h : ∀ c ∈ cs, c.isDigit = true) (value : Nat) :
    Decimal.readDigits 10 value cs = some (Nat.ofDigitChars 10 cs value) := by
  induction cs generalizing value with
  | nil => rfl
  | cons c cs ih =>
    rw [Decimal.readDigits, digit?_of_isDigit (h c List.mem_cons_self)]
    simp only
    rw [ih fun d hd => h d (List.mem_cons_of_mem _ hd), Nat.mul_comm]
    rfl

theorem readNat_toDigits (n : Nat) : Decimal.readNat 10 (Nat.toDigits 10 n) = some n := by
  have hdigits : ∀ c ∈ Nat.toDigits 10 n, c.isDigit = true := fun c hc =>
    Nat.isDigit_of_mem_toDigits (by decide) (by decide) hc
  have hread := readDigits_of_isDigit hdigits 0
  rw [Nat.ofDigitChars_toDigits (by decide) (by decide)] at hread
  cases hlist : Nat.toDigits 10 n with
  | nil => exact absurd hlist Nat.toDigits_ne_nil
  | cons c cs =>
    rw [hlist] at hread
    exact hread

theorem readSign_of_isDigit {cs : List Char} (h : ∀ c ∈ cs, c.isDigit = true) :
    Decimal.readSign cs = (false, cs) := by
  unfold Decimal.readSign
  split
  · exact absurd (h '-' List.mem_cons_self) (by decide)
  · exact absurd (h '+' List.mem_cons_self) (by decide)
  · rfl

theorem isDigit_of_mem {n : Nat} {c : Char} (hc : c ∈ Nat.toDigits 10 n) : c.isDigit = true :=
  Nat.isDigit_of_mem_toDigits (by decide) (by decide) hc

theorem toList_ofNat (m : Nat) : (toString (Int.ofNat m)).toList = Nat.toDigits 10 m := Nat.toList_repr

theorem toList_negSucc (m : Nat) : (toString (Int.negSucc m)).toList = '-' :: Nat.toDigits 10 (m + 1) := by
  change ("-" ++ (m + 1).repr).toList = _
  rw [String.toList_append, Nat.toList_repr]
  rfl

theorem readInt_toString (n : Int) : Decimal.readInt (toString n).toList = some n := by
  unfold Decimal.readInt
  cases n with
  | ofNat m =>
    rw [toList_ofNat]
    simp only [readSign_of_isDigit fun c => isDigit_of_mem, readNat_toDigits]
    rfl
  | negSucc m =>
    rw [toList_negSucc]
    simp only [Decimal.readSign, readNat_toDigits]
    rfl

/-- No letters stand in the decimal text of an integer. -/
theorem lower_toString_ne (n : Int) {word : String} (hword : ∃ c ∈ word.toList, c.isAlpha = true) :
    lower (toString n) ≠ word := by
  rintro rfl
  obtain ⟨c, hc, halpha⟩ := hword
  rw [toList_lower] at hc
  obtain ⟨d, hd, rfl⟩ := List.mem_map.mp hc
  have hnone : ∀ d ∈ (toString n).toList, d.isDigit = true ∨ d = '-' := by
    cases n with
    | ofNat m =>
      rw [toList_ofNat]
      exact fun d hd => Or.inl (isDigit_of_mem hd)
    | negSucc m =>
      rw [toList_negSucc]
      exact List.forall_mem_cons.mpr ⟨Or.inr rfl, fun d hd => Or.inl (isDigit_of_mem hd)⟩
  rcases hnone d hd with hdigit | rfl
  · have hrange := (isDigit_iff d).mp hdigit
    have hupper : d.isUpper = false := by
      rw [Bool.eq_false_iff, Ne, isUpper_iff]
      omega
    have hlower : d.isLower = false := by
      rw [Bool.eq_false_iff, Ne, isLower_iff]
      omega
    have hkelvin : d ≠ '\u212a' := by
      rintro rfl
      cases hdigit
    rw [lowerChar_of_isLowered (by simp [isLowered, hkelvin, hupper])] at halpha
    change (d.isUpper || d.isLower) = true at halpha
    rw [hupper, hlower] at halpha
    cases halpha
  · exact absurd halpha (by decide)

theorem envValue_toString {n : Int} (h : isInt64 n = true) : envValue (toString n) = .int n := by
  have htrue : lower (toString n) ≠ "true" := lower_toString_ne n ⟨'t', by decide, by decide⟩
  have hfalse : lower (toString n) ≠ "false" := lower_toString_ne n ⟨'f', by decide, by decide⟩
  simp only [envValue, if_neg htrue, if_neg hfalse, readInt_toString, if_pos h]

/-- How a text from the environment is spelled when a text is asked for. -/
def spelled (s : String) : String :=
  match envValue s with
  | .bool b => toString b
  | .int n => toString n
  | .float x => x.text
  | _ => s

theorem toText_envValue (s : String) : (envValue s).toText = .ok (spelled s) := by
  have hcases : (∃ b, envValue s = .bool b) ∨ (∃ n, envValue s = .int n) ∨ (∃ x, envValue s = .float x) ∨
      envValue s = .text s := by
    unfold envValue envValue.envNumber
    simp only
    repeat' split
    all_goals simp
  rcases hcases with ⟨b, h⟩ | ⟨n, h⟩ | ⟨x, h⟩ | h <;> rw [spelled, h] <;> rfl

/-! ### One variable -/

/-- A variable that names a field assigns to no other one. -/
theorem assigned_spelled_other {f f' : Field} (h : f' ≠ f) (v : Tree) : f'.assigned [(f.spelled, v)] = [] := by
  have hname : f.sec = f'.sec → f.name ≠ f'.name := by
    cases f <;> cases f' <;> first | exact absurd rfl h | decide
  rw [Field.assigned, assigned, List.flatMap_singleton, path_spelled, assignedAlong]
  split
  next hsec => rw [assignedTo, lower_name, if_neg (hname hsec)]
  next => rfl

theorem keepsSections_spelled (f : Field) (v : Tree) : KeepsSections [(f.spelled, v)] := by
  intro f' e he x hx
  rw [List.mem_singleton.mp he, path_spelled, Tree.lookup_place] at hx
  split at hx
  · obtain rfl := Option.some.inj hx
    rw [Tree.place, Tree.assign_eq]
    rfl
  · cases hx

/-- Settings with one field from a variable, and the others as they are built in. -/
theorem load_of_variable {f : Field} {var value : String} (hvar : envKey? var = some f.spelled)
    (hvalue : value ≠ "") {s : Settings} (hf : f.convert (envValue value) = .ok (f.value s))
    (hothers : ∀ f' : Field, f' ≠ f → f'.value s = f'.value .default) :
    Settings.load ⟨[(var, value)], []⟩ none = .ok s := by
  have hsource : ofEnvironment [(var, value)] = [(f.spelled, envValue value)] := by
    simp [ofEnvironment, hvar, hvalue, put]
  have hbase : ofSettings .default = .ok _ := ofSettings_eq_ok_iff.mpr ⟨by decide, rfl⟩
  have hlayers : Settings.layers .default ⟨[(var, value)], []⟩ [] = .ok _ :=
    layers_eq_ok_iff.mpr ⟨_, [], hbase, rfl, rfl⟩
  rw [hsource] at hlayers
  change (Settings.layers .default ⟨[(var, value)], []⟩ [] >>= Settings.stacked) = _
  rw [hlayers]
  refine (stacked_eq_ok_iff hbase (.refl _) (List.forall_mem_singleton.mpr (keepsSections_spelled f _))).mpr
    fun f' => ?_
  rw [List.flatten_singleton]
  by_cases h : f' = f
  · subst h
    obtain ⟨w, hw⟩ := Tree.gist_of_ne_table (envValue_ne_table value)
    rw [Field.assigned, assigned, List.flatMap_singleton, assignedAlong_spelled, hw]
    change f'.convert w = _
    rw [← f'.convert_gist hw, hf]
  · rw [assigned_spelled_other h]
    change f'.convert (f'.value .default) = _
    rw [f'.convert_value, hothers f' h]

end Config

open Config

/-- A text from the environment is loaded, and nothing else, as it is spelled after it has been read. That is
the text itself if it holds anything but digits, signs, points and exponents and is none of a few words, and
if it is a truth value or an integer of 64 bits in the usual spelling. -/
theorem environment_texts_are_spelled (s : String) (hs : s ≠ "") :
    Settings.load ⟨[("NSREG__REGISTRY__NAMESPACE_REGISTRY_KEY", s)], []⟩ none =
      .ok ⟨{ FollowSettings.default with key := spelled s }, .default⟩ ∧
    Settings.load ⟨[("NSREG__MONITORING__METRICS_SCOPE", s)], []⟩ none =
      .ok ⟨.default, { MonitoringSettings.default with scope := spelled s }⟩ ∧
    (¬IsWord s → (∃ c ∈ s.toList, isNumeral c = false) → spelled s = s) ∧
    (s = "true" ∨ s = "false" ∨ (∃ n, isInt64 n = true ∧ s = toString n) → spelled s = s) := by
  refine ⟨load_of_variable (f := .key) (by decide) hs
      ((Field.convert_text_iff (.inl rfl)).mpr (toText_envValue s)) fun f' hf' => ?_,
    load_of_variable (f := .scope) (by decide) hs
      ((Field.convert_text_iff (.inr rfl)).mpr (toText_envValue s)) fun f' hf' => ?_,
    fun hword hchar => by rw [spelled, envValue_eq_text hword hchar], ?_⟩
  · cases f' <;> first | rfl | exact absurd rfl hf'
  · cases f' <;> first | rfl | exact absurd rfl hf'
  · rintro (rfl | rfl | ⟨n, hn, rfl⟩)
    · decide
    · decide
    · rw [spelled, envValue_toString hn]

/-- A key with a point in it arrives as it is, and so does a number in the usual spelling. -/
theorem environment_texts_are_spelled_small :
    Settings.load ⟨[("NSREG__REGISTRY__NAMESPACE_REGISTRY_KEY", "node.7")], []⟩ none =
      .ok ⟨{ FollowSettings.default with key := "node.7" }, .default⟩ ∧
    Settings.load ⟨[("NSREG__MONITORING__METRICS_SCOPE", "-7")], []⟩ none =
      .ok ⟨.default, { MonitoringSettings.default with scope := "-7" }⟩ := by
  obtain ⟨hkey, _, htext, _⟩ := environment_texts_are_spelled "node.7" (by decide)
  obtain ⟨_, hscope, _, hcanonical⟩ := environment_texts_are_spelled "-7" (by decide)
  rw [htext (by decide) ⟨'n', by decide, by decide⟩] at hkey
  rw [hcanonical (Or.inr (Or.inr ⟨-7, by decide, by decide⟩))] at hscope
  exact ⟨hkey, hscope⟩

/-- Texts do not arrive verbatim: one that reads as a number is another text afterwards. -/
theorem environment_text_mangled :
    ¬∀ s : String, s ≠ "" → '\x00' ∉ s.toList → ∃ settings : Settings,
      Settings.load ⟨[("NSREG__REGISTRY__NAMESPACE_REGISTRY_KEY", s)], []⟩ none = .ok settings ∧
        settings.registry.key = s := by
  intro h
  obtain ⟨settings, hload, hkey⟩ := h "1e3" (by decide) (by decide)
  have hmangled : Settings.load ⟨[("NSREG__REGISTRY__NAMESPACE_REGISTRY_KEY", "1e3")], []⟩ none =
      .ok ⟨{ FollowSettings.default with key := "1000" }, .default⟩ := by decide +kernel
  obtain rfl := Except.ok.inj (hload.symm.trans hmangled)
  exact absurd hkey (by decide)

end NamespaceTopology
