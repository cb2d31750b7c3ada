import Mathlib.Data.List.Induction
import NamespaceTopology.Proofs.Config.Layers

set_option autoImplicit false

/-!
What the variables of an environment assign to the fields of settings. Their names are taken in lower case
and their values are no tables, so one key alone spells a field, and any other one that leads to it puts
something below that no setting can be made of.
-/
namespace NamespaceTopology.Config

/-! ### Lower case -/

def lowerChar (c : Char) : Char := if c = '\u212a' then 'k' else c.toLower

theorem lower_eq (s : String) : lower s = String.ofList (s.toList.map lowerChar) := rfl

theorem toList_lower (s : String) : (lower s).toList = s.toList.map lowerChar := by
  rw [lower_eq, String.toList_ofList]

/-- Neither a capital letter nor the Kelvin sign. -/
def isLowered (c : Char) : Bool := c ≠ '\u212a' && !c.isUpper

theorem toLower_of_not_isUpper {c : Char} (h : c.isUpper = false) : c.toLower = c :=
  dif_neg (of_decide_eq_false h)

theorem lowerChar_of_isLowered {c : Char} (h : isLowered c = true) : lowerChar c = c := by
  obtain ⟨hkelvin, hupper⟩ : c ≠ '\u212a' ∧ c.isUpper = false := by simpa [isLowered] using h
  rw [lowerChar, if_neg hkelvin, toLower_of_not_isUpper hupper]

theorem envValue_ne_table (s : String) : ∀ es, envValue s ≠ .table es := by
  intro es h
  unfold envValue envValue.envNumber at h
  simp only at h
  repeat' split at h
  all_goals cases h

/-! ### Paths -/

def Field.spelled (f : Field) : String := f.sec ++ "." ++ f.name

theorem path_spelled (f : Field) : path f.spelled = [.name f.sec, .name f.name] := by
  cases f <;> decide

/-- The key of a field sets it. -/
theorem assignedAlong_spelled (f : Field) (v : Tree) :
    assignedAlong f.sec f.name (path f.spelled) v = v.gist.toList := by
  rw [path_spelled, assignedAlong, if_pos rfl, assignedTo, if_pos (lower_name f)]

/-- The entries of an environment have different keys in lower case, and no tables. -/
structure Plain (source : List (String × Tree)) : Prop where
  nodup : (source.map Prod.fst).Nodup
  entry : ∀ e ∈ source, lower e.1 = e.1 ∧ ∀ es, e.2 ≠ .table es

variable {vars : List (String × String)} {last : List (String × Tree)} {f : Field}

end NamespaceTopology.Config
