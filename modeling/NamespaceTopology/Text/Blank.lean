set_option autoImplicit false

/-!
Classes of characters. A class is given by its borders, a strictly ascending list of code points: a
character outside every run stands before the first border, and each border begins or ends a run. The
blank characters are few enough to be listed.
-/
namespace NamespaceTopology.Text

/-- A class of characters, as the code points at which membership changes. -/
structure CharClass where
  borders : List Nat

namespace CharClass

/-- Membership starts as `inside` and changes at every border that does not lie beyond `n`. -/
def crossed : List Nat → Bool → Nat → Bool
  | [], inside, _ => inside
  | b :: bs, inside, n => if b ≤ n then crossed bs (!inside) n else inside

def contains (cls : CharClass) (c : Char) : Bool := crossed cls.borders false c.toNat

end CharClass

/-- The White_Space property. The zero-width space and the byte order mark do not have it. -/
def isBlank (c : Char) : Bool :=
  let n := c.toNat
  (9 ≤ n && n ≤ 13) || n == 0x20 || n == 0x85 || n == 0xa0 || n == 0x1680 ||
    (0x2000 ≤ n && n ≤ 0x200a) || n == 0x2028 || n == 0x2029 || n == 0x202f || n == 0x205f ||
    n == 0x3000

def isAllBlank (s : String) : Bool := s.toList.all isBlank

/-- The text without the blank characters at its end. -/
def trimEnd (s : String) : String :=
  String.ofList (s.toList.reverse.dropWhile isBlank).reverse

theorem isBlank_of_isWhitespace {c : Char} (h : c.isWhitespace = true) : isBlank c = true := by
  simp only [Char.isWhitespace, Bool.or_eq_true, decide_eq_true_eq] at h
  rcases h with ((h | h) | h) | h <;> subst h <;> decide

end NamespaceTopology.Text
