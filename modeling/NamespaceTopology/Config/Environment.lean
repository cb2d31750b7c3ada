import NamespaceTopology.Config.Tree
import NamespaceTopology.Number.Binary64
import NamespaceTopology.Number.Decimal

set_option autoImplicit false

/-!
Environment variables as a source of settings. Two underscores part the names of a path, and a value
that can be read as a truth value or a number is one.
-/
namespace NamespaceTopology.Config

/-- What the names of all variables of a registry begin with, in letters of either case. -/
def envPrefix : String := "nsreg__"

/-- The characters with every pair of underscores made a point. -/
def splitNames : List Char → List Char
  | '_' :: '_' :: cs => '.' :: splitNames cs
  | c :: cs => c :: splitNames cs
  | [] => []

/-- The path that a variable sets, if it belongs to a registry. -/
def envKey? (name : String) : Option String :=
  let cs := (lower name).toList
  if envPrefix.toList.isPrefixOf cs then
    some (String.ofList (splitNames (cs.drop envPrefix.length)))
  else none

/-- The value of a variable: a truth value, an integer of 64 bits, a number or a text. -/
def envValue (s : String) : Tree :=
  let name := lower s
  if name = "true" then .bool true
  else if name = "false" then .bool false
  else match Decimal.readInt s.toList with
    | some n =>
      if isInt64 n then .int n else envNumber s
    | none => envNumber s
where
  envNumber (s : String) : Tree :=
    match Decimal.readBinary64 s.toList with
    | some x => .float x
    | none => .text s

/-- The settings that variables make, in their order. An empty value makes none. -/
def ofEnvironment (vars : List (String × String)) : List (String × Tree) :=
  vars.foldl (fun es v =>
    match envKey? v.1 with
    | some key => if v.2 = "" then es else put key (envValue v.2) es
    | none => es) []

end NamespaceTopology.Config
