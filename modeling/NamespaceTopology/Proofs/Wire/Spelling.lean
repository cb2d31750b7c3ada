import NamespaceTopology.Proofs.Wire.Fields

set_option autoImplicit false

/-!
Which bytes spell a field. A number may have more digits than it needs, and a group is read over to its
end, so one field has many spellings. Each reader accepts the bytes that begin with a spelling, and no
others, and leaves what stands behind it; so it does not matter to what is read what follows it.
-/
namespace NamespaceTopology.Wire

/-! ### Numbers -/

/-- Digits in base 128, least significant first, that make up a number. The high bit is set on every byte
but the last. -/
inductive SpellsDigits : Nat → List UInt8 → Prop
  | last {b : UInt8} (hb : b.toNat < 128) : SpellsDigits b.toNat [b]
  | more {b : UInt8} {n : Nat} {bytes : List UInt8} (hb : 128 ≤ b.toNat)
      (hrest : SpellsDigits n bytes) : SpellsDigits (b.toNat % 128 + 128 * n) (b :: bytes)

structure SpellsNumber (n : Nat) (bytes : List UInt8) : Prop where
  digits : SpellsDigits n bytes
  length : bytes.length ≤ 10
  lt : n < 18446744073709551616

theorem spellsDigits_of_readDigits {left unit value n : Nat} {bytes rest : List UInt8}
    (h : readDigits left unit value bytes = some (n, rest)) :
    ∃ w m, bytes = w ++ rest ∧ SpellsDigits m w ∧ w.length ≤ left + 1 ∧ n = value + m * unit := by
  induction bytes generalizing left unit value with
  | nil => simp [readDigits] at h
  | cons b bs ih =>
    simp only [readDigits] at h
    split at h
    · cases h
    · split at h
      next hb =>
        obtain ⟨rfl, rfl⟩ := Prod.mk.inj (Option.some.inj h)
        exact ⟨[b], b.toNat, rfl, .last hb, by simp, by rw [Nat.mod_eq_of_lt hb]⟩
      next hb =>
        split at h
        · cases h
        next hleft =>
          obtain ⟨w, m, rfl, hw, hlength, rfl⟩ := ih h
          refine ⟨b :: w, b.toNat % 128 + 128 * m, rfl, .more (Nat.not_lt.mp hb) hw, ?_, ?_⟩
          · rw [List.length_cons]
            omega
          · rw [Nat.add_mul, Nat.add_assoc, Nat.mul_comm 128 m, Nat.mul_assoc]

theorem readDigits_of_spellsDigits {m : Nat} {w : List UInt8} (h : SpellsDigits m w)
    {left unit value : Nat} (hlength : w.length ≤ left + 1)
    (hlt : value + m * unit < 18446744073709551616) (rest : List UInt8) :
    readDigits left unit value (w ++ rest) = some (value + m * unit, rest) := by
  induction h generalizing left unit value with
  | @last b hb =>
    simp only [List.cons_append, List.nil_append, readDigits, Nat.mod_eq_of_lt hb]
    rw [if_neg (Nat.not_le.mpr hlt), if_pos hb]
  | @more b n bytes hb hrest ih =>
    have hsum : value + b.toNat % 128 * unit + n * (128 * unit) =
        value + (b.toNat % 128 + 128 * n) * unit := by
      rw [Nat.add_mul, Nat.add_assoc, Nat.mul_comm 128 n, Nat.mul_assoc]
    have hbytes : 0 < bytes.length := by
      cases hrest <;> exact Nat.succ_pos _
    rw [List.length_cons] at hlength
    simp only [List.cons_append, readDigits]
    rw [if_neg (by omega), if_neg (Nat.not_lt.mpr hb), if_neg (by omega),
      ih (by omega) (by omega), hsum]

/-- A number is read just if the bytes begin with a spelling of it. -/
theorem readVarint_eq_some_iff {bytes rest : List UInt8} {n : Nat} :
    readVarint bytes = some (n, rest) ↔ ∃ w, bytes = w ++ rest ∧ SpellsNumber n w := by
  constructor
  · intro h
    obtain ⟨w, m, hbytes, hw, hlength, hn⟩ := spellsDigits_of_readDigits h
    obtain rfl : n = m := by omega
    exact ⟨w, hbytes, hw, hlength, readVarint_lt h⟩
  · rintro ⟨w, rfl, hw⟩
    have hsum : 0 + n * 1 < 18446744073709551616 := by
      rw [Nat.zero_add, Nat.mul_one]
      exact hw.lt
    rw [readVarint, readDigits_of_spellsDigits hw.digits hw.length hsum, Nat.zero_add, Nat.mul_one]

/-! ### Keys -/

/-- The key of a field. Only kinds that have a code of their own can be announced. -/
structure SpellsKey (number : Nat) (kind : Kind) (bytes : List UInt8) : Prop where
  pos : 0 < number
  lt : number < 536870912
  known : Kind.ofCode? kind.code = some kind
  key : SpellsNumber (number * 8 + kind.code) bytes

theorem code_of_ofCode? {code : Nat} {kind : Kind} (h : Kind.ofCode? code = some kind) :
    kind.code = code ∧ code < 8 := by
  unfold Kind.ofCode? at h
  split at h
  case h_7 => cases h
  all_goals
    cases h
    exact ⟨rfl, by decide⟩

theorem readKey_eq_some_iff {bytes rest : List UInt8} {number : Nat} {kind : Kind} :
    readKey bytes = some ((number, kind), rest) ↔
      ∃ w, bytes = w ++ rest ∧ SpellsKey number kind w := by
  simp only [readKey, Option.bind_eq_bind, Option.bind_eq_some_iff]
  constructor
  · rintro ⟨⟨key, after⟩, hkey, h⟩
    obtain ⟨w, rfl, hw⟩ := readVarint_eq_some_iff.1 hkey
    split at h
    · cases h
    next hlt =>
      obtain ⟨known, hknown, h⟩ := Option.bind_eq_some_iff.mp h
      obtain ⟨hfirst, rfl⟩ := Prod.mk.inj (Option.some.inj h)
      obtain ⟨rfl, rfl⟩ := Prod.mk.inj hfirst
      obtain ⟨hcode, _⟩ := code_of_ofCode? hknown
      have hsplit : key / 8 * 8 + known.code = key := by omega
      exact ⟨w, rfl, by omega, by omega, hcode ▸ hknown, hsplit.symm ▸ hw⟩
  · rintro ⟨w, rfl, hpos, hlt, hknown, hw⟩
    obtain ⟨_, hcode⟩ := code_of_ofCode? hknown
    refine ⟨(number * 8 + kind.code, rest), readVarint_eq_some_iff.2 ⟨w, rfl, hw⟩, ?_⟩
    have hdiv : (number * 8 + kind.code) / 8 = number := by omega
    have hmod : (number * 8 + kind.code) % 8 = kind.code := by omega
    rw [if_neg (by omega), hdiv, hmod, hknown]
    rfl

/-! ### Payloads -/

inductive SpellsPlain : Kind → Payload → List UInt8 → Prop
  | number {n : Nat} {bytes : List UInt8} (h : SpellsNumber n bytes) :
      SpellsPlain .number (.number n) bytes
  | fixed (bytes : List UInt8) : SpellsPlain (.fixed bytes.length) (.fixed bytes) bytes
  | counted {count bytes : List UInt8} (h : SpellsNumber bytes.length count) :
      SpellsPlain .counted (.counted bytes) (count ++ bytes)

/-- Whole fields one after another. Any of them stands in a group already, and so many groups may stand
inside one another from there on; without any left no field may stand there. -/
inductive SpellsInside : Nat → List UInt8 → Prop
  | done (depth : Nat) : SpellsInside depth []
  | plain {depth number : Nat} {kind : Kind} {payload : Payload} {key body rest : List UInt8}
      (hkey : SpellsKey number kind key) (hbody : SpellsPlain kind payload body)
      (hrest : SpellsInside (depth + 1) rest) : SpellsInside (depth + 1) (key ++ (body ++ rest))
  | group {depth number : Nat} {first inner last rest : List UInt8}
      (hfirst : SpellsKey number .groupStart first) (hinner : SpellsInside depth inner)
      (hlast : SpellsKey number .groupEnd last) (hrest : SpellsInside (depth + 1) rest) :
      SpellsInside (depth + 1) (first ++ (inner ++ (last ++ rest)))

inductive SpellsPayload (depth number : Nat) : Kind → Payload → List UInt8 → Prop
  | plain {kind : Kind} {payload : Payload} {body : List UInt8} (h : SpellsPlain kind payload body) :
      SpellsPayload depth number kind payload body
  | group {inner last : List UInt8} (hinner : SpellsInside (depth - 1) inner)
      (hlast : SpellsKey number .groupEnd last) :
      SpellsPayload depth number .groupStart .group (inner ++ last)

theorem takeBytes_eq_some_iff {n : Nat} {bytes taken rest : List UInt8} :
    takeBytes n bytes = some (taken, rest) ↔ bytes = taken ++ rest ∧ taken.length = n := by
  constructor
  · intro h
    refine ⟨takeBytes_eq_some h, ?_⟩
    obtain ⟨hle, hsplit⟩ := Option.ite_none_right_eq_some.mp h
    obtain ⟨rfl, _⟩ := Prod.mk.inj (Option.some.inj hsplit)
    exact List.length_take_of_le hle
  · rintro ⟨rfl, rfl⟩
    exact takeBytes_append taken rest

theorem readCounted_eq_some_iff {bytes counted rest : List UInt8} :
    readCounted bytes = some (counted, rest) ↔
      ∃ count, bytes = count ++ counted ++ rest ∧ SpellsNumber counted.length count := by
  simp only [readCounted, Option.bind_eq_bind, Option.bind_eq_some_iff]
  constructor
  · rintro ⟨⟨n, after⟩, hn, htake⟩
    obtain ⟨count, rfl, hcount⟩ := readVarint_eq_some_iff.1 hn
    obtain ⟨rfl, rfl⟩ := takeBytes_eq_some_iff.1 htake
    exact ⟨count, (List.append_assoc ..).symm, hcount⟩
  · rintro ⟨count, rfl, hcount⟩
    refine ⟨(counted.length, counted ++ rest), ?_, takeBytes_append counted rest⟩
    exact readVarint_eq_some_iff.2 ⟨count, List.append_assoc .., hcount⟩

theorem readPayload_plain_iff {depth number : Nat} {kind : Kind} {bytes rest : List UInt8}
    {payload : Payload} (hkind : kind ≠ .groupStart) :
    readPayload depth number kind bytes = some (payload, rest) ↔
      ∃ body, bytes = body ++ rest ∧ SpellsPlain kind payload body := by
  cases kind with
  | number =>
    simp only [readPayload, Option.map_eq_some_iff]
    constructor
    · rintro ⟨⟨n, after⟩, hn, hsame⟩
      obtain ⟨rfl, rfl⟩ := Prod.mk.inj hsame
      obtain ⟨w, rfl, hw⟩ := readVarint_eq_some_iff.1 hn
      exact ⟨w, rfl, .number hw⟩
    · rintro ⟨w, rfl, ⟨hw⟩⟩
      exact ⟨_, readVarint_eq_some_iff.2 ⟨w, rfl, hw⟩, rfl⟩
  | fixed size =>
    simp only [readPayload, Option.map_eq_some_iff]
    constructor
    · rintro ⟨⟨taken, after⟩, htaken, hsame⟩
      obtain ⟨rfl, rfl⟩ := Prod.mk.inj hsame
      obtain ⟨rfl, rfl⟩ := takeBytes_eq_some_iff.1 htaken
      exact ⟨taken, rfl, .fixed taken⟩
    · rintro ⟨w, rfl, ⟨_⟩⟩
      exact ⟨_, takeBytes_append w rest, rfl⟩
  | counted =>
    simp only [readPayload, Option.map_eq_some_iff]
    constructor
    · rintro ⟨⟨counted, after⟩, hcounted, hsame⟩
      obtain ⟨rfl, rfl⟩ := Prod.mk.inj hsame
      obtain ⟨count, rfl, hcount⟩ := readCounted_eq_some_iff.1 hcounted
      exact ⟨count ++ counted, rfl, .counted hcount⟩
    · rintro ⟨w, rfl, hw⟩
      cases hw with
      | counted hcount => exact ⟨_, readCounted_eq_some_iff.2 ⟨_, rfl, hcount⟩, rfl⟩
  | groupStart => exact absurd rfl hkind
  | groupEnd =>
    constructor
    · intro h
      cases h
    · rintro ⟨_, _, h⟩
      cases h

/-! ### Groups -/

section Groups

variable {depth number innermost : Nat} {kind : Kind} {outer : List Nat} {bytes rest after : List UInt8}

/-- One key in an open group closes it, opens another group, or belongs to a field that is read over. -/
theorem closeGroups_cons (hkey : readKey bytes = some ((number, kind), rest)) :
    closeGroups depth (innermost :: outer) bytes =
      if kind = .groupEnd then
        if number = innermost then closeGroups depth outer rest else none
      else if depth ≤ outer.length + 1 then none
      else if kind = .groupStart then closeGroups depth (number :: innermost :: outer) rest
      else (readPayload depth number kind rest).bind fun p =>
        closeGroups depth (innermost :: outer) p.2 := by
  rw [closeGroups]
  split
  next hnone =>
    rw [hkey] at hnone
    cases hnone
  next hread =>
    rw [hkey] at hread
    cases hread
    cases kind with
    | groupEnd | groupStart => rfl
    | number | fixed _ | counted =>
      simp only [reduceCtorEq, if_false]
      refine ite_congr rfl (fun _ => rfl) fun _ => ?_
      split <;> simp_all [readPayload]

theorem closeGroups_groupEnd (hkey : readKey bytes = some ((number, .groupEnd), rest)) :
    closeGroups depth (innermost :: outer) bytes =
      if number = innermost then closeGroups depth outer rest else none := by
  rw [closeGroups_cons hkey, if_pos rfl]

theorem closeGroups_groupStart (hkey : readKey bytes = some ((number, .groupStart), rest)) :
    closeGroups depth (innermost :: outer) bytes =
      if depth ≤ outer.length + 1 then none
      else closeGroups depth (number :: innermost :: outer) rest := by
  rw [closeGroups_cons hkey, if_neg nofun, if_pos rfl]

theorem closeGroups_plain (hkey : readKey bytes = some ((number, kind), rest))
    (hstart : kind ≠ .groupStart) (hend : kind ≠ .groupEnd) :
    closeGroups depth (innermost :: outer) bytes =
      if depth ≤ outer.length + 1 then none
      else (readPayload depth number kind rest).bind fun p =>
        closeGroups depth (innermost :: outer) p.2 := by
  rw [closeGroups_cons hkey, if_neg hend, if_neg hstart]

end Groups

/-- What stands between the start of so many groups, the innermost first, and the end of them all. -/
inductive SpellsRest (depth : Nat) : List Nat → List UInt8 → Prop
  | none : SpellsRest depth [] []
  | close {innermost : Nat} {outer : List Nat} {inner last rest : List UInt8}
      (hinner : SpellsInside (depth - (outer.length + 1)) inner)
      (hlast : SpellsKey innermost .groupEnd last) (hrest : SpellsRest depth outer rest) :
      SpellsRest depth (innermost :: outer) (inner ++ (last ++ rest))

theorem SpellsPlain.ne_groupStart {kind : Kind} {payload : Payload} {body : List UInt8}
    (h : SpellsPlain kind payload body) : kind ≠ .groupStart ∧ kind ≠ .groupEnd := by
  cases h <;> exact ⟨nofun, nofun⟩

/-- Whole fields in a group are passed over, and the group stays open. -/
theorem closeGroups_inside {left : Nat} {w : List UInt8} (h : SpellsInside left w) {depth : Nat}
    {innermost : Nat} {outer : List Nat} (hleft : left = depth - (outer.length + 1))
    (rest : List UInt8) :
    closeGroups depth (innermost :: outer) (w ++ rest) =
      closeGroups depth (innermost :: outer) rest := by
  induction h generalizing innermost outer rest with
  | done => rfl
  | @plain left number kind payload key body after hkey hbody _ ih =>
    obtain ⟨hstart, hend⟩ := hbody.ne_groupStart
    rw [List.append_assoc, closeGroups_plain (readKey_eq_some_iff.2 ⟨key, rfl, hkey⟩) hstart hend,
      if_neg (by omega), List.append_assoc,
      (readPayload_plain_iff hstart).mpr ⟨body, rfl, hbody⟩, Option.bind_some, ih hleft]
  | @group left number first inner last after hfirst _ hlast _ ihinner ihrest =>
    rw [List.append_assoc, closeGroups_groupStart (readKey_eq_some_iff.2 ⟨first, rfl, hfirst⟩),
      if_neg (by omega), List.append_assoc,
      ihinner (by rw [List.length_cons]; omega), List.append_assoc,
      closeGroups_groupEnd (readKey_eq_some_iff.2 ⟨last, rfl, hlast⟩), if_pos rfl, ihrest hleft]

theorem closeGroups_of_spellsRest {depth : Nat} {pending : List Nat} {w : List UInt8}
    (h : SpellsRest depth pending w) (rest : List UInt8) :
    closeGroups depth pending (w ++ rest) = some rest := by
  induction h with
  | none => rw [List.nil_append, closeGroups]
  | @close innermost outer inner last after hinner hlast _ ih =>
    rw [List.append_assoc, closeGroups_inside hinner rfl, List.append_assoc,
      closeGroups_groupEnd (readKey_eq_some_iff.2 ⟨last, rfl, hlast⟩), if_pos rfl, ih]

section Rest

variable {depth number innermost : Nat} {outer : List Nat} {key w : List UInt8}

theorem SpellsRest.cons_plain {kind : Kind} {payload : Payload} {body : List UInt8}
    (hdepth : outer.length + 1 < depth) (hkey : SpellsKey number kind key)
    (hbody : SpellsPlain kind payload body) (h : SpellsRest depth (innermost :: outer) w) :
    SpellsRest depth (innermost :: outer) (key ++ (body ++ w)) := by
  obtain ⟨left, hleft⟩ : ∃ left, depth - (outer.length + 1) = left + 1 :=
    ⟨depth - (outer.length + 1) - 1, by omega⟩
  cases h with
  | @close _ _ inner last rest hinner hlast hrest =>
    rw [hleft] at hinner
    have hall : SpellsInside (depth - (outer.length + 1)) (key ++ (body ++ inner)) :=
      hleft ▸ .plain hkey hbody hinner
    simpa only [List.append_assoc] using SpellsRest.close hall hlast hrest

theorem SpellsRest.cons_group (hdepth : outer.length + 1 < depth)
    (hkey : SpellsKey number .groupStart key)
    (h : SpellsRest depth (number :: innermost :: outer) w) :
    SpellsRest depth (innermost :: outer) (key ++ w) := by
  obtain ⟨left, hleft⟩ : ∃ left, depth - (outer.length + 1) = left + 1 :=
    ⟨depth - (outer.length + 1) - 1, by omega⟩
  cases h with
  | @close _ _ inner last _ hinner hlast h =>
    cases h with
    | @close _ _ inner' last' rest hinner' hlast' hrest =>
      have hinner : SpellsInside left inner := by
        rw [List.length_cons, ← Nat.sub_sub, hleft, Nat.add_sub_cancel] at hinner
        exact hinner
      rw [hleft] at hinner'
      have hall : SpellsInside (depth - (outer.length + 1)) (key ++ (inner ++ (last ++ inner'))) :=
        hleft ▸ .group hkey hinner hlast hinner'
      simpa only [List.append_assoc] using SpellsRest.close hall hlast' hrest

end Rest

theorem spellsRest_of_closeGroups {depth : Nat} {pending : List Nat} {bytes after : List UInt8}
    (h : closeGroups depth pending bytes = some after) :
    ∃ w, bytes = w ++ after ∧ SpellsRest depth pending w := by
  -- The groups that are open may become more with a key, but the bytes become fewer.
  induction hlength : bytes.length using Nat.strongRecOn generalizing pending bytes with
  | ind n ih =>
  subst hlength
  cases pending with
  | nil =>
    rw [closeGroups] at h
    exact ⟨[], Option.some.inj h, .none⟩
  | cons innermost outer =>
    cases hread : readKey bytes with
    | none =>
      rw [closeGroups] at h
      split at h
      · cases h
      next hsome =>
        rw [hread] at hsome
        cases hsome
    | some found =>
      obtain ⟨⟨number, kind⟩, rest⟩ := found
      have hshorter := readKey_shorter hread
      obtain ⟨key, rfl, hkey⟩ := readKey_eq_some_iff.1 hread
      by_cases hend : kind = .groupEnd
      · subst hend
        rw [closeGroups_groupEnd hread] at h
        obtain ⟨rfl, hrest⟩ := Option.ite_none_right_eq_some.mp h
        obtain ⟨w, rfl, hw⟩ := ih _ hshorter hrest rfl
        exact ⟨[] ++ (key ++ w), by simp, .close (.done _) hkey hw⟩
      by_cases hstart : kind = .groupStart
      · subst hstart
        rw [closeGroups_groupStart hread] at h
        obtain ⟨hdepth, hrest⟩ := Option.ite_none_left_eq_some.mp h
        obtain ⟨w, rfl, hw⟩ := ih _ hshorter hrest rfl
        exact ⟨key ++ w, (List.append_assoc ..).symm, hw.cons_group (by omega) hkey⟩
      rw [closeGroups_plain hread hstart hend] at h
      obtain ⟨hdepth, hbind⟩ := Option.ite_none_left_eq_some.mp h
      obtain ⟨⟨payload, behind⟩, hpayload, hbehind⟩ := Option.bind_eq_some_iff.mp hbind
      have hle := readPayload_le hpayload
      obtain ⟨body, rfl, hbody⟩ := (readPayload_plain_iff hstart).mp hpayload
      obtain ⟨w, rfl, hw⟩ := ih behind.length (by omega) hbehind rfl
      exact ⟨key ++ (body ++ w), by simp, hw.cons_plain (by omega) hkey hbody⟩

/-! ### Fields -/

theorem readPayload_eq_some_iff {depth number : Nat} {kind : Kind} {bytes rest : List UInt8}
    {payload : Payload} :
    readPayload depth number kind bytes = some (payload, rest) ↔
      ∃ body, bytes = body ++ rest ∧ SpellsPayload depth number kind payload body := by
  by_cases hstart : kind = .groupStart
  · subst hstart
    simp only [readPayload, Option.map_eq_some_iff]
    constructor
    · rintro ⟨after, hclose, hsame⟩
      obtain ⟨rfl, rfl⟩ := Prod.mk.inj hsame
      obtain ⟨w, rfl, hw⟩ := spellsRest_of_closeGroups hclose
      cases hw with
      | @close _ _ inner last between hinner hlast hrest =>
        cases hrest
        exact ⟨_, rfl, by simpa using SpellsPayload.group hinner hlast⟩
    · rintro ⟨body, rfl, hbody⟩
      cases hbody with
      | plain hplain => exact absurd rfl hplain.ne_groupStart.1
      | @group inner last hinner hlast =>
        have hrest : SpellsRest depth [number] (inner ++ (last ++ [])) := .close hinner hlast .none
        exact ⟨rest, by simpa using closeGroups_of_spellsRest hrest rest, rfl⟩
  · rw [readPayload_plain_iff hstart]
    refine exists_congr fun body => and_congr_right fun _ => ⟨.plain, fun h => ?_⟩
    cases h with
    | plain hplain => exact hplain
    | group => exact absurd rfl hstart

inductive SpellsField (embedded : Nat → Bool) (depth : Nat) : Field → List UInt8 → Prop
  | mk {number : Nat} {kind : Kind} {payload : Payload} {key body : List UInt8}
      (hkey : SpellsKey number kind key)
      (hbody : SpellsPayload depth number (if embedded number then .counted else kind) payload body) :
      SpellsField embedded depth ⟨number, payload⟩ (key ++ body)

inductive SpellsFields (embedded : Nat → Bool) (depth : Nat) : List Field → List UInt8 → Prop
  | nil : SpellsFields embedded depth [] []
  | cons {f : Field} {fs : List Field} {first rest : List UInt8}
      (hfirst : SpellsField embedded depth f first) (hrest : SpellsFields embedded depth fs rest) :
      SpellsFields embedded depth (f :: fs) (first ++ rest)

section Fields

variable {embedded : Nat → Bool} {depth : Nat} {f : Field} {fs : List Field} {bytes rest : List UInt8}

theorem readField_eq_some_iff :
    readField embedded depth bytes = some (f, rest) ↔
      ∃ w, bytes = w ++ rest ∧ SpellsField embedded depth f w := by
  constructor
  · intro h
    unfold readField at h
    split at h
    · cases h
    next number kind after hread =>
      obtain ⟨key, rfl, hkey⟩ := readKey_eq_some_iff.1 hread
      obtain ⟨⟨payload, behind⟩, hpayload, hsame⟩ := Option.map_eq_some_iff.mp h
      obtain ⟨rfl, rfl⟩ := Prod.mk.inj hsame
      obtain ⟨body, rfl, hbody⟩ := readPayload_eq_some_iff.1 hpayload
      exact ⟨key ++ body, (List.append_assoc ..).symm, .mk hkey hbody⟩
  · rintro ⟨w, rfl, hw⟩
    cases hw with
    | @mk number kind payload key body hkey hbody =>
      have hread : readKey (key ++ body ++ rest) = some ((number, kind), body ++ rest) :=
        readKey_eq_some_iff.2 ⟨key, List.append_assoc .., hkey⟩
      have hpayload := readPayload_eq_some_iff.2 ⟨body, rfl (a := body ++ rest), hbody⟩
      simp only [readField, hread, hpayload, Option.map_some]

theorem spellsField_of_readField (h : readField embedded depth bytes = some (f, [])) :
    SpellsField embedded depth f bytes := by
  obtain ⟨w, rfl, hw⟩ := readField_eq_some_iff.1 h
  rwa [List.append_nil]

/-- What is written is one of the spellings. -/
theorem spellsField_write (h : f.Fits embedded) (depth : Nat) :
    SpellsField embedded depth f f.write := by
  have hread := readField_write h depth []
  rw [List.append_nil] at hread
  exact spellsField_of_readField hread

theorem readFields_nil : readFields embedded depth [] = some [] := by rw [readFields]

theorem readFields_of_spellsFields (h : SpellsFields embedded depth fs bytes) (rest : List UInt8) :
    readFields embedded depth (bytes ++ rest) = (readFields embedded depth rest).map (fs ++ ·) := by
  induction h with
  | nil => simp
  | @cons f fs first bytes hfirst _ ih =>
    have hread := readField_eq_some_iff.2 ⟨first, List.append_assoc first bytes rest, hfirst⟩
    rw [readFields_of_readField hread, ih, Option.map_map]
    rfl

/-- The fields of a message are read just if the bytes are a spelling of them, one after another. -/
theorem readFields_eq_some_iff :
    readFields embedded depth bytes = some fs ↔ SpellsFields embedded depth fs bytes := by
  constructor
  · intro h
    induction hlength : bytes.length using Nat.strongRecOn generalizing bytes fs with
    | ind n ih =>
    subst hlength
    cases bytes with
    | nil =>
      rw [readFields_nil] at h
      obtain rfl := Option.some.inj h
      exact .nil
    | cons b bs =>
      rw [readFields] at h
      split at h
      · cases h
      next f rest hread =>
        obtain ⟨fs', hrest, rfl⟩ := Option.map_eq_some_iff.mp h
        have hfields := ih _ (readField_shorter hread) hrest rfl
        obtain ⟨w, hw', hw⟩ := readField_eq_some_iff.1 hread
        rw [hw']
        exact .cons hw hfields
  · intro h
    have hread := readFields_of_spellsFields h []
    rw [List.append_nil, readFields_nil, Option.map_some, List.append_nil] at hread
    exact hread

/-- What follows whole fields does not change how they are read. -/
theorem readFields_append (h : readFields embedded depth bytes = some fs) (rest : List UInt8) :
    readFields embedded depth (bytes ++ rest) = (readFields embedded depth rest).map (fs ++ ·) :=
  readFields_of_spellsFields (readFields_eq_some_iff.1 h) rest

/-- A field that is cut off anywhere behind its first byte is not read. -/
theorem readFields_cut (h : SpellsField embedded depth f bytes) (hcut : rest <+: bytes)
    (hne : rest ≠ bytes) (hsome : rest ≠ []) : readFields embedded depth rest = none := by
  obtain ⟨more, rfl⟩ := hcut
  refine Option.eq_none_iff_forall_ne_some.mpr fun fs hread => ?_
  have hwhole : readFields embedded depth (rest ++ more) = some [f] := by
    refine readFields_eq_some_iff.2 ?_
    simpa using SpellsFields.cons h .nil
  rw [readFields_append hread] at hwhole
  obtain ⟨gs, hmore, hsame⟩ := Option.map_eq_some_iff.mp hwhole
  rcases List.append_eq_singleton_iff.mp hsame with ⟨rfl, rfl⟩ | ⟨rfl, rfl⟩
  · cases readFields_eq_some_iff.1 hread
    exact hsome rfl
  · cases readFields_eq_some_iff.1 hmore
    exact hne (List.append_nil rest).symm

end Fields

end NamespaceTopology.Wire
