import NamespaceTopology.Number.Binary64

set_option autoImplicit false

/-!
The shortest decimal text of a binary floating-point number: the fewest digits for which no other
number is nearer, and with so many digits the closest ones, written out without an exponent.
-/
namespace NamespaceTopology.Binary64

/-- The numbers that are read back as a given one: those between `low / base` and `high / base`, the
ends among them if `closed`. -/
structure Neighborhood where
  value : Nat
  low : Nat
  high : Nat
  base : Nat
  closed : Bool

/-- What lies nearer to `m * 2 ^ q` than to any other number, for `0 < m`. Below a power of two the
next number is only half as far away. -/
def neighborhood (m : Nat) (q : Int) : Neighborhood :=
  let up := power 2 (q - 2).toNat
  let below := if m = 4503599627370496 ∧ minExponent < q then 1 else 2
  ⟨4 * m * up, (4 * m - below) * up, (4 * m + 2) * up, power 2 (2 - q).toNat, m % 2 = 0⟩

namespace Neighborhood

def holds (h : Neighborhood) (n : Nat) (e : Int) : Bool :=
  let x := n * power 10 e.toNat * h.base
  let y := power 10 (-e).toNat
  if h.closed then h.low * y ≤ x && x ≤ h.high * y else h.low * y < x && x < h.high * y

/-- The greatest `e` with `10 ^ e` not above the value. -/
def exponent10 (h : Neighborhood) : Int :=
  if h.base ≤ h.value then (Nat.toDigits 10 (h.value / h.base)).length - 1
  else
    let n := (Nat.toDigits 10 (h.base / h.value)).length
    if h.base ≤ h.value * power 10 (n - 1) then -((n - 1 : Nat) : Int) else -(n : Int)

/-- The multiples of `10 ^ e` beside the value that lie in the neighborhood, the nearer first and of
two equally near ones the greater. -/
def candidates (h : Neighborhood) (e : Int) : List Nat :=
  let unit := power 10 e.toNat * h.base
  let scaled := h.value * power 10 (-e).toNat
  let n := scaled / unit
  let near := if unit ≤ 2 * (scaled % unit) then [n + 1, n] else [n, n + 1]
  near.filter fun c => h.holds c e

/-- The first of the exponents with a candidate, and the candidate. Seventeen digits always do. -/
def firstHit (h : Neighborhood) : List Int → Nat × Int
  | [] => (0, 0)
  | e :: es =>
    match h.candidates e with
    | c :: _ => (c, e)
    | [] => firstHit h es

def shortest (h : Neighborhood) : Nat × Int :=
  h.firstHit ((List.range 17).map fun (p : Nat) => h.exponent10 - (p : Int))

end Neighborhood

/-- The decimal text of `n * 10 ^ e` without an exponent. -/
def positional (n : Nat) (e : Int) : String :=
  if 0 ≤ e then toString n ++ String.ofList (List.replicate e.toNat '0')
  else
    let digits := Nat.toDigits 10 n
    let places := (-e).toNat
    let padded := List.replicate (places + 1 - digits.length) '0' ++ digits
    let split := padded.length - places
    let decimals := ((padded.drop split).reverse.dropWhile (· = '0')).reverse
    let whole := String.ofList (padded.take split)
    if decimals.isEmpty then whole else whole ++ "." ++ String.ofList decimals

/-- The text of a number. Zero keeps its sign. -/
def text : Binary64 → String
  | .nan => "NaN"
  | .infinite negative => if negative then "-inf" else "inf"
  | .finite negative m q =>
    let sign := if negative then "-" else ""
    if m = 0 then sign ++ "0"
    else
      let (n, e) := (neighborhood m q).shortest
      sign ++ positional n e

/-- The decimal text of `n * 10 ^ e` with one digit before the point and an exponent. -/
def scientific (n : Nat) (e : Int) : String :=
  match Nat.toDigits 10 n with
  | [] => ""
  | d :: ds =>
    let point := if ds.isEmpty then "" else "." ++ String.ofList ds
    d.toString ++ point ++ "e" ++ toString (e + ds.length)

/-- The text of an integer that is such a number: with a point, and from `10 ^ 16` on with an
exponent. -/
def intText (n : Int) : String :=
  if n.natAbs < 10000000000000000 then toString n ++ ".0"
  else match ofRatio (decide (n < 0)) n.natAbs 1 with
    | .finite negative m q =>
      let (digits, e) := (neighborhood m q).shortest
      (if negative then "-" else "") ++ scientific digits e
    | x => x.text

example : (ofDecimal false 75 (-1)).text = "7.5" := by cbv

end NamespaceTopology.Binary64
