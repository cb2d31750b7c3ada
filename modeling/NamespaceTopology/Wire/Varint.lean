import NamespaceTopology.Number.Binary64

set_option autoImplicit false

/-!
Numbers in base 128, least significant digit first, the high bit set on every byte but the last.
Reading takes at most ten bytes and refuses what does not fit 64 bits; it accepts digits that only
add zeros at the end.
-/
namespace NamespaceTopology.Wire

def writeVarint (n : Nat) : List UInt8 :=
  if n < 128 then [UInt8.ofNat n] else UInt8.ofNat (n % 128 + 128) :: writeVarint (n / 128)
termination_by n

def varintLength (n : Nat) : Nat := Nat.log2 n / 7 + 1

/-- Reads digits, the first of which counts `unit` times. The earlier ones add up to `value`, and so
many may still follow the first. -/
def readDigits (left unit value : Nat) : List UInt8 → Option (Nat × List UInt8)
  | [] => none
  | b :: rest =>
    let n := value + b.toNat % 128 * unit
    if 18446744073709551616 ≤ n then none
    else if b.toNat < 128 then some (n, rest)
    else if left = 0 then none
    else readDigits (left - 1) (128 * unit) n rest

/-- The number at the head of the bytes, and the bytes after it. -/
def readVarint (bytes : List UInt8) : Option (Nat × List UInt8) := readDigits 9 1 0 bytes

theorem readDigits_shorter {left unit value n : Nat} {bytes rest : List UInt8}
    (h : readDigits left unit value bytes = some (n, rest)) : rest.length < bytes.length := by
  induction bytes generalizing left unit value with
  | nil => simp [readDigits] at h
  | cons b bs ih =>
    simp only [readDigits] at h
    split at h
    · cases h
    · split at h
      · cases h; simp
      · split at h
        · cases h
        · exact Nat.lt_succ_of_lt (ih h)

theorem readVarint_shorter {bytes rest : List UInt8} {n : Nat}
    (h : readVarint bytes = some (n, rest)) : rest.length < bytes.length :=
  readDigits_shorter h

theorem readDigits_lt {left unit value n : Nat} {bytes rest : List UInt8}
    (h : readDigits left unit value bytes = some (n, rest)) : n < 18446744073709551616 := by
  induction bytes generalizing left unit value with
  | nil => simp [readDigits] at h
  | cons b bs ih =>
    simp only [readDigits] at h
    split at h
    · cases h
    · split at h
      · cases h; omega
      · split at h
        · cases h
        · exact ih h

theorem readVarint_lt {bytes rest : List UInt8} {n : Nat}
    (h : readVarint bytes = some (n, rest)) : n < 18446744073709551616 :=
  readDigits_lt h

theorem length_writeVarint_le {k n : Nat} (h : n < power 128 (k + 1)) :
    (writeVarint n).length ≤ k + 1 := by
  induction k generalizing n with
  | zero =>
    have hn : n < 128 := h
    simp [writeVarint, hn]
  | succ k ih =>
    rw [writeVarint]
    split
    · simp
    · have hdiv : n / 128 < power 128 (k + 1) := by
        refine Nat.div_lt_of_lt_mul ?_
        rw [Nat.mul_comm]
        exact h
      exact Nat.succ_le_succ (ih hdiv)

/-- A number is read back from its bytes, whatever follows them. -/
theorem readDigits_writeVarint (left unit value n : Nat) (rest : List UInt8)
    (h : value + n * unit < 18446744073709551616) (hlength : (writeVarint n).length ≤ left + 1) :
    readDigits left unit value (writeVarint n ++ rest) = some (value + n * unit, rest) := by
  induction n using Nat.strongRecOn generalizing left unit value with
  | ind n ih =>
    rw [writeVarint] at hlength ⊢
    split at hlength
    next hn =>
      have hb : (UInt8.ofNat n).toNat = n := by simp; omega
      rw [if_pos hn]
      simp only [List.cons_append, List.nil_append, readDigits, hb]
      rw [Nat.mod_eq_of_lt hn, if_neg (Nat.not_le.mpr h), if_pos hn]
    next hn =>
      have hb : (UInt8.ofNat (n % 128 + 128)).toNat = n % 128 + 128 := by simp; omega
      have hm : (n % 128 + 128) % 128 = n % 128 := by omega
      have hsum : value + n % 128 * unit + n / 128 * (128 * unit) = value + n * unit := by
        rw [Nat.add_assoc, ← Nat.mul_assoc, ← Nat.add_mul, Nat.mul_comm (n / 128) 128,
          Nat.mod_add_div]
      rw [if_neg hn]
      simp only [List.cons_append, readDigits, hb, hm]
      rw [if_neg (by omega), if_neg (by omega)]
      have hpos : 0 < (writeVarint (n / 128)).length := by
        rw [writeVarint]; split <;> simp
      simp only [List.length_cons] at hlength
      rw [if_neg (by omega), ih (n / 128) (by omega) (left - 1) _ _ (by omega) (by omega), hsum]

theorem readVarint_writeVarint {n : Nat} (h : n < 18446744073709551616) (rest : List UInt8) :
    readVarint (writeVarint n ++ rest) = some (n, rest) := by
  have hlength : (writeVarint n).length ≤ 9 + 1 :=
    length_writeVarint_le (Nat.lt_of_lt_of_le h (by decide))
  simpa [readVarint] using readDigits_writeVarint 9 1 0 n rest (by simpa using h) hlength

end NamespaceTopology.Wire
