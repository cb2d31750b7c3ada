import NamespaceTopology.Number.Binary64

set_option autoImplicit false

/-!
Lengths of time in whole nanoseconds, and the text that shows one: in the largest of seconds,
milliseconds, microseconds and nanoseconds that fits, with as many decimals as it needs.
-/
namespace NamespaceTopology

structure Span where
  nanos : Nat
deriving DecidableEq, Repr

namespace Span

def zero : Span := ⟨0⟩

def ofMillis (n : Nat) : Span := ⟨n * 1000000⟩

def ofSeconds (n : Nat) : Span := ⟨n * 1000000000⟩

/-- The decimals of `n / 10 ^ places` for `n < 10 ^ places`, without zeros at the end. -/
def decimals (n places : Nat) : List Char :=
  let digits := Nat.toDigits 10 n
  let padded := List.replicate (places - digits.length) '0' ++ digits
  (padded.reverse.dropWhile (· = '0')).reverse

/-- The number `n / 10 ^ places` in decimal. -/
def inUnit (n places : Nat) : String :=
  let whole := toString (n / power 10 places)
  match decimals (n % power 10 places) places with
  | [] => whole
  | ds => whole ++ "." ++ String.ofList ds

def text (d : Span) : String :=
  if 1000000000 ≤ d.nanos then inUnit d.nanos 9 ++ "s"
  else if 1000000 ≤ d.nanos then inUnit d.nanos 6 ++ "ms"
  else if 1000 ≤ d.nanos then inUnit d.nanos 3 ++ "µs"
  else toString d.nanos ++ "ns"

end Span

end NamespaceTopology
