set_option autoImplicit false

/-!
Numbers of 64 bits: the bounds of the integers, and binary floating-point numbers with 53 significant
bits in exact integer arithmetic, with the nearest one to a decimal number and the nearest integer to
one.
-/
namespace NamespaceTopology

/-- The power, by the instance for numbers itself, so that it means the same whatever algebra is in
scope. -/
def power (base n : Nat) : Nat :=
  @HPow.hPow Nat Nat Nat (@instHPow Nat Nat (@instPowNat Nat instNatPowNat)) base n

def minInt64 : Int := -9223372036854775808

def maxInt64 : Int := 9223372036854775807

def maxUInt64 : Int := 18446744073709551615

def isInt64 (n : Int) : Bool := minInt64 ≤ n && n ≤ maxInt64

/-- Not a number, an infinity, or the finite number `m * 2 ^ q` with a sign. -/
inductive Binary64 where
  | nan
  | infinite (negative : Bool)
  | finite (negative : Bool) (m : Nat) (q : Int)
deriving DecidableEq, Repr

namespace Binary64

/-- The integer nearest to `a / b`, the even one of two. -/
def nearestEven (a b : Nat) : Nat :=
  let low := a / b
  let twice := 2 * (a % b)
  if twice < b then low
  else if b < twice then low + 1
  else low + low % 2

/-- The integer nearest to `a / b`, the greater one of two. -/
def nearestUp (a b : Nat) : Nat := (2 * a + b) / (2 * b)

/-- `a / b * 2 ^ q` as a quotient of two integers. -/
def scale (a b : Nat) (q : Int) : Nat × Nat :=
  if 0 ≤ q then (a * power 2 q.toNat, b) else (a, b * power 2 (-q).toNat)

/-- The greatest `e` with `2 ^ e ≤ a / b`. -/
def exponent (a b : Nat) : Int :=
  let e : Int := (Nat.log2 a : Int) - Nat.log2 b
  let (x, y) := scale a b (-e)
  if y ≤ x then e else e - 1

/-- The least exponent of the last bit, and the greatest. -/
def minExponent : Int := -1074

def maxExponent : Int := 971

/-- The number nearest to `a / b`, of two the one with the even last bit. -/
def ofRatio (negative : Bool) (a b : Nat) : Binary64 :=
  if a = 0 then .finite negative 0 minExponent
  else
    let q := max (exponent a b - 52) minExponent
    let (x, y) := scale a b (-q)
    let m := nearestEven x y
    let (m, q) := if m = 9007199254740992 then (4503599627370496, q + 1) else (m, q)
    if maxExponent < q then .infinite negative else .finite negative m q

/-- The number nearest to `digits * 10 ^ e`. Exponents far outside the range are not worked out. -/
def ofDecimal (negative : Bool) (digits : Nat) (e : Int) : Binary64 :=
  let size : Int := (Nat.toDigits 10 digits).length
  if digits = 0 ∨ e + size < -330 then .finite negative 0 minExponent
  else if 310 < e + size then .infinite negative
  else if 0 ≤ e then ofRatio negative (digits * power 10 e.toNat) 1
  else ofRatio negative digits (power 10 (-e).toNat)

/-- The nearest integer, halves going away from zero and an infinity to the end of its side. -/
def toIntWithin (low high : Int) : Binary64 → Int
  | .nan => 0
  | .infinite negative => if negative then low else high
  | .finite negative m q =>
    let (x, y) := scale m 1 q
    let n : Int := nearestUp x y
    max low (min high (if negative then -n else n))

/-- The nearest number to an integer, itself an integer. -/
def roundInt (n : Int) : Int :=
  let e := Nat.log2 n.natAbs
  if e ≤ 52 then n
  else
    let unit := power 2 (e - 52)
    let m : Int := nearestEven n.natAbs unit * unit
    if n < 0 then -m else m

theorem toIntWithin_bounds {low high : Int} (hlow : low ≤ 0) (hhigh : 0 ≤ high) (x : Binary64) :
    low ≤ toIntWithin low high x ∧ toIntWithin low high x ≤ high := by
  cases x with
  | nan => exact ⟨hlow, hhigh⟩
  | infinite negative => cases negative <;> simp [toIntWithin] <;> omega
  | finite negative m q => simp only [toIntWithin]; omega

theorem roundInt_of_small {n : Int} (h : n.natAbs < 9007199254740992) : roundInt n = n := by
  have he : Nat.log2 n.natAbs ≤ 52 := by
    by_cases h0 : n.natAbs = 0
    · simp [h0]
    · exact Nat.lt_succ_iff.mp ((Nat.log2_lt h0).mpr h)
  simp [roundInt, he]

example : ofDecimal false 1 (-1) = .finite false 7205759403792794 (-56) := by decide

example : roundInt 9007199254740993 = 9007199254740992 := by decide

end Binary64

end NamespaceTopology
