import NamespaceTopology.Wire.Field

set_option autoImplicit false

/-!
Fields that are written are read back, one after another and whatever follows them. Numbers and lengths
have 64 bits on the wire, so a field fits only if its payload does.
-/
namespace NamespaceTopology.Wire

/-! ### Keys and counted bytes -/

theorem readKey_writeKey {number : Nat} (kind : Kind) (hpos : 0 < number)
    (hlt : number < 536870912) (hcode : kind.code < 8) (hkind : Kind.ofCode? kind.code = some kind)
    (rest : List UInt8) :
    readKey (writeKey number kind ++ rest) = some ((number, kind), rest) := by
  have hdiv : (number * 8 + kind.code) / 8 = number := by omega
  have hmod : (number * 8 + kind.code) % 8 = kind.code := by omega
  have hread := readVarint_writeVarint (n := number * 8 + kind.code) (by omega) rest
  simp only [readKey, writeKey, hread, Option.bind_eq_bind, Option.bind_some, hdiv, hmod]
  rw [if_neg (by omega), hkind]
  rfl

theorem takeBytes_append (bytes rest : List UInt8) :
    takeBytes bytes.length (bytes ++ rest) = some (bytes, rest) := by
  simp [takeBytes]

theorem readCounted_write {bytes : List UInt8} (h : bytes.length < 18446744073709551616)
    (rest : List UInt8) :
    readCounted (writeVarint bytes.length ++ bytes ++ rest) = some (bytes, rest) := by
  rw [List.append_assoc]
  simp only [readCounted, readVarint_writeVarint h, Option.bind_eq_bind, Option.bind_some]
  exact takeBytes_append bytes rest

/-! ### Fields -/

/-- The bytes of a field. Only numbers and counted bytes are ever written. -/
def Field.write (f : Field) : List UInt8 :=
  match f.payload with
  | .number n => writeNumber f.number n
  | .counted bytes => writeCounted f.number bytes
  | .fixed _ | .group => []

def Payload.Fits : Payload → Prop
  | .number n => n < 18446744073709551616
  | .counted bytes => bytes.length < 18446744073709551616
  | .fixed _ | .group => False

/-- A field that is written is read as it was where its number is expected to have that kind of payload. -/
structure Field.Fits (embedded : Nat → Bool) (f : Field) : Prop where
  pos : 0 < f.number
  lt : f.number < 536870912
  payload : f.payload.Fits
  kind : embedded f.number = true → ∃ bytes, f.payload = .counted bytes

theorem readField_write {embedded : Nat → Bool} {f : Field} (h : f.Fits embedded) (depth : Nat)
    (rest : List UInt8) : readField embedded depth (f.write ++ rest) = some (f, rest) := by
  obtain ⟨number, payload⟩ := f
  obtain ⟨hpos, hlt, hpayload, hkind⟩ := h
  cases payload with
  | number n =>
    have hplain : embedded number = false := by
      refine Bool.eq_false_iff.mpr fun hembedded => ?_
      obtain ⟨bytes, hbytes⟩ := hkind hembedded
      cases hbytes
    have hkey := readKey_writeKey .number hpos hlt (by decide) rfl (writeVarint n ++ rest)
    have hnumber := readVarint_writeVarint hpayload rest
    simp [Field.write, writeNumber, readField, hkey, hplain, readPayload, hnumber]
  | counted bytes =>
    have hkey := readKey_writeKey .counted hpos hlt (by decide) rfl
      (writeVarint bytes.length ++ bytes ++ rest)
    have hcounted := readCounted_write hpayload rest
    have hwrite : Field.write ⟨number, .counted bytes⟩ ++ rest =
        writeKey number .counted ++ (writeVarint bytes.length ++ bytes ++ rest) := by
      simp [Field.write, writeCounted]
    rw [hwrite]
    simp only [readField, hkey, ite_self, readPayload, hcounted, Option.map_some]
  | fixed bytes | group => cases hpayload

theorem readFields_of_readField {embedded : Nat → Bool} {depth : Nat} {bytes rest : List UInt8}
    {f : Field} (h : readField embedded depth bytes = some (f, rest)) :
    readFields embedded depth bytes = (readFields embedded depth rest).map (f :: ·) := by
  cases bytes with
  | nil => simp [readField, readKey, readVarint, readDigits] at h
  | cons b bs =>
    rw [readFields]
    split
    next hnone =>
      rw [h] at hnone
      cases hnone
    next f' rest' hfield =>
      rw [h] at hfield
      obtain ⟨rfl, rfl⟩ := Prod.mk.inj (Option.some.inj hfield)
      rfl

/-- Fields that are written are read back, and then what follows them. -/
theorem readFields_write {embedded : Nat → Bool} {fs : List Field}
    (h : ∀ f ∈ fs, f.Fits embedded) (depth : Nat) (rest : List UInt8) :
    readFields embedded depth (fs.flatMap Field.write ++ rest) =
      (readFields embedded depth rest).map (fs ++ ·) := by
  induction fs with
  | nil => simp
  | cons f fs ih =>
    have hread := readField_write (h f List.mem_cons_self) depth (fs.flatMap Field.write ++ rest)
    rw [List.flatMap_cons, List.append_assoc, readFields_of_readField hread,
      ih fun g hg => h g (List.mem_cons_of_mem f hg), Option.map_map]
    rfl

theorem readFields_written {embedded : Nat → Bool} {fs : List Field}
    (h : ∀ f ∈ fs, f.Fits embedded) (depth : Nat) :
    readFields embedded depth (fs.flatMap Field.write) = some fs := by
  have hread := readFields_write h depth []
  have hnil : readFields embedded depth [] = some [] := by rw [readFields]
  rw [List.append_nil, hnil, Option.map_some, List.append_nil] at hread
  exact hread

/-! ### Lengths -/

theorem length_writeVarint {n : Nat} (h : n < 18446744073709551616) : (writeVarint n).length ≤ 10 :=
  length_writeVarint_le (Nat.lt_of_lt_of_le h (by decide))

theorem length_writeKey (number : Nat) (kind : Kind) (h : number * 8 + kind.code < 128) :
    (writeKey number kind).length = 1 := by
  rw [writeKey, writeVarint, if_pos h]
  rfl

theorem takeBytes_eq_some {n : Nat} {bytes taken rest : List UInt8}
    (h : takeBytes n bytes = some (taken, rest)) : bytes = taken ++ rest := by
  obtain ⟨_, hsplit⟩ := Option.ite_none_right_eq_some.mp h
  obtain ⟨rfl, rfl⟩ := Prod.mk.inj (Option.some.inj hsplit)
  exact (List.take_append_drop n bytes).symm

theorem readCounted_le {bytes taken rest : List UInt8} (h : readCounted bytes = some (taken, rest)) :
    taken.length ≤ bytes.length := by
  simp only [readCounted, Option.bind_eq_bind, Option.bind_eq_some_iff] at h
  obtain ⟨⟨n, after⟩, hn, htake⟩ := h
  have htake : takeBytes n after = some (taken, rest) := htake
  have hsplit := congrArg List.length (takeBytes_eq_some htake)
  have hshorter := readVarint_shorter hn
  rw [List.length_append] at hsplit
  omega

/-- Counted bytes are part of the bytes in which they stand. -/
theorem readField_counted_le {embedded : Nat → Bool} {depth : Nat} {bytes rest counted : List UInt8}
    {f : Field} (h : readField embedded depth bytes = some (f, rest))
    (hf : f.payload = .counted counted) : counted.length ≤ bytes.length := by
  unfold readField at h
  split at h
  · cases h
  next number kind after hkey =>
    have hafter := readKey_shorter hkey
    obtain ⟨⟨payload, last⟩, hpayload, hsame⟩ := Option.map_eq_some_iff.mp h
    obtain ⟨rfl, rfl⟩ := Prod.mk.inj hsame
    obtain rfl : payload = .counted counted := hf
    cases hkind : (if embedded number = true then Kind.counted else kind) with
    | counted =>
      rw [hkind] at hpayload
      obtain ⟨⟨taken, left⟩, htaken, hsame⟩ := Option.map_eq_some_iff.mp hpayload
      obtain ⟨htaken', rfl⟩ := Prod.mk.inj hsame
      obtain rfl := Payload.counted.inj htaken'
      exact Nat.le_trans (readCounted_le htaken) (Nat.le_of_lt hafter)
    | number | fixed size | groupStart =>
      rw [hkind] at hpayload
      obtain ⟨_, _, hsame⟩ := Option.map_eq_some_iff.mp hpayload
      cases (Prod.mk.inj hsame).1
    | groupEnd =>
      rw [hkind] at hpayload
      cases hpayload

theorem readFields_counted_le {embedded : Nat → Bool} {depth : Nat} {bytes counted : List UInt8}
    {fs : List Field} (h : readFields embedded depth bytes = some fs) {f : Field} (hmem : f ∈ fs)
    (hf : f.payload = .counted counted) : counted.length ≤ bytes.length := by
  induction fs generalizing bytes with
  | nil => cases hmem
  | cons first fs ih =>
    cases bytes with
    | nil =>
      rw [readFields] at h
      cases h
    | cons b bs =>
      cases hread : readField embedded depth (b :: bs) with
      | none =>
        rw [readFields] at h
        split at h
        · cases h
        next hsome =>
          rw [hread] at hsome
          cases hsome
      | some result =>
        obtain ⟨field, rest⟩ := result
        rw [readFields_of_readField hread] at h
        obtain ⟨fs', hrest, hsame⟩ := Option.map_eq_some_iff.mp h
        obtain ⟨rfl, rfl⟩ := List.cons.inj hsame
        rcases List.mem_cons.mp hmem with rfl | hmem
        · exact readField_counted_le hread hf
        · exact Nat.le_trans (ih hrest hmem) (Nat.le_of_lt (readField_shorter hread))

end NamespaceTopology.Wire
