import NamespaceTopology.Number.Binary64

set_option autoImplicit false

/-!
Numbers in decimal text: signed integers, and numbers with a fraction or an exponent.
-/
namespace NamespaceTopology.Decimal

/-- The value of a digit below `base`, letters of either case standing for ten and above. -/
def digit? (base : Nat) (c : Char) : Option Nat :=
  let n := c.toNat
  let v := if 48 ≤ n && n ≤ 57 then n - 48
    else if 97 ≤ n && n ≤ 122 then n - 87
    else if 65 ≤ n && n ≤ 90 then n - 55
    else base
  if v < base then some v else none

def isDigit (c : Char) : Bool := (digit? 10 c).isSome

/-- The value of digits in a base, read on from `value`. -/
def readDigits (base : Nat) : Nat → List Char → Option Nat
  | value, [] => some value
  | value, c :: cs =>
    match digit? base c with
    | some d => readDigits base (value * base + d) cs
    | none => none

/-- The number that at least one digit spells. -/
def readNat (base : Nat) : List Char → Option Nat
  | [] => none
  | cs => readDigits base 0 cs

/-- The sign before a number: whether it is a minus, and what follows. -/
def readSign : List Char → Bool × List Char
  | '-' :: cs => (true, cs)
  | '+' :: cs => (false, cs)
  | cs => (false, cs)

def readInt (cs : List Char) : Option Int :=
  let (negative, rest) := readSign cs
  (readNat 10 rest).map fun n => if negative then -(n : Int) else n

/-- An integer that may have a plus but no minus before it. -/
def readUnsigned : List Char → Option Nat
  | '+' :: cs => readNat 10 cs
  | cs => readNat 10 cs

/-- The exponent after a mantissa, zero if nothing is left. -/
def readExponent : List Char → Option Int
  | [] => some 0
  | c :: cs => if c = 'e' ∨ c = 'E' then readInt cs else none

/-- A number with a fraction and an exponent, each of them optional; digits must stand before or
after the point. -/
def readFinite (negative : Bool) (cs : List Char) : Option Binary64 :=
  let whole := cs.takeWhile isDigit
  let rest := cs.dropWhile isDigit
  let (fraction, rest) := match rest with
    | '.' :: after => (after.takeWhile isDigit, after.dropWhile isDigit)
    | _ => ([], rest)
  match readNat 10 (whole ++ fraction), readExponent rest with
  | some n, some e => some (.ofDecimal negative n (e - fraction.length))
  | _, _ => none

/-- A number, an infinity or not a number, the names in letters of either case. -/
def readBinary64 (cs : List Char) : Option Binary64 :=
  let (negative, rest) := readSign cs
  let name := String.ofList (rest.map Char.toLower)
  if name = "nan" then some .nan
  else if name = "inf" ∨ name = "infinity" then some (.infinite negative)
  else readFinite negative rest

end NamespaceTopology.Decimal
