import NamespaceTopology.Number.Binary64

set_option autoImplicit false

/-!
Configuration values of any shape, as sources give them before they are converted. Values are put
into a tree under a path; tables are joined entry by entry, and anything else replaces what was
there. Entries are listed here in some order, in which they are laid; `Reordered` tells the others in which
they may come.
-/
namespace NamespaceTopology.Config

inductive Tree where
  | blank
  | bool (b : Bool)
  | int (n : Int)
  | float (x : Binary64)
  | text (s : String)
  | array (items : List Tree)
  | table (entries : List (String × Tree))

/-- The value of a key after a change. A new key stands at the end. -/
def put {α : Type} (key : String) (a : α) : List (String × α) → List (String × α)
  | [] => [(key, a)]
  | e :: es => if e.1 = key then (key, a) :: es else e :: put key a es

theorem lookup_put {α : Type} (key other : String) (a : α) (es : List (String × α)) :
    (put key a es).lookup other = if other = key then some a else es.lookup other := by
  induction es with
  | nil => by_cases h : other = key <;> simp [put, List.lookup_cons, h, beq_false_of_ne]
  | cons e es ih =>
    obtain ⟨k, b⟩ := e
    by_cases hk : k = key
    · subst hk
      by_cases h : other = k <;> simp [put, List.lookup_cons, h, beq_false_of_ne]
    · by_cases h : other = key
      · subst h
        simp [put, hk, List.lookup_cons, ih, beq_false_of_ne (Ne.symm hk)]
      · simp [put, hk, List.lookup_cons, ih, h]

/-- The lower case of a name. Every name that is looked up is ASCII, so of the other letters only the
Kelvin sign matters: its lower case is an ASCII letter. -/
def lower (name : String) : String :=
  String.ofList (name.toList.map fun c => if c = '\u212a' then 'k' else c.toLower)

/-- The entries of a table. What is no table counts as an empty one. -/
def Tree.entries : Tree → List (String × Tree)
  | .table es => es
  | _ => []

/-- The items of an array. What is no array counts as an empty one. -/
def Tree.items : Tree → List Tree
  | .array items => items
  | _ => []

mutual

/-- Puts a value under a name. The entries of a table join those that are there already. -/
def Tree.assign (name : String) (value : Tree) (root : Tree) : Tree :=
  match value with
  | .table incoming =>
    let target := (root.entries.lookup (lower name)).getD (.table [])
    .table (put (lower name) (Tree.assignAll incoming target) root.entries)
  | value => .table (put (lower name) value root.entries)

def Tree.assignAll (incoming : List (String × Tree)) (root : Tree) : Tree :=
  match incoming with
  | [] => root
  | (name, value) :: rest => Tree.assignAll rest (Tree.assign name value root)

end

inductive Step where
  | name (s : String)
  | index (n : Int)
deriving DecidableEq

/-- The position that an index names in an array of `size` items. A negative one counts from the
end. -/
def position? (size : Nat) (n : Int) : Option Nat :=
  if 0 ≤ n then some n.toNat else if n.natAbs ≤ size then some (size - n.natAbs) else none

/-- The items with a change at a position, which is filled up to with blanks. -/
def modifyItem (n : Int) (change : Tree → Tree) (items : List Tree) : List Tree :=
  match position? items.length n with
  | none => items
  | some i =>
    (items ++ List.replicate (i + 1 - items.length) Tree.blank).modify i change

/-- Puts a value where a path leads, turning what stands in the way into tables and arrays. Only the
last name of a path is taken in lower case. -/
def Tree.place : List Step → Tree → Tree → Tree
  | [], _, root => root
  | [.name s], value, root => Tree.assign s value root
  | [.index n], value, root => .array (modifyItem n (fun _ => value) root.items)
  | .name s :: path, value, root =>
    .table (put s (Tree.place path value ((root.entries.lookup s).getD .blank)) root.entries)
  | .index n :: path, value, root => .array (modifyItem n (Tree.place path value) root.items)

/-! Paths are names joined by points, with indices in brackets. -/

def isNameChar (c : Char) : Bool := c.isAlphanum || c = ' ' || c = '_' || c = '-'

/-- The integer and the bracket that follow an opening bracket. -/
def readIndex (cs : List Char) : Option (Int × List Char) :=
  let isBlank (c : Char) : Bool := c = ' ' || c = '\t'
  let cs := cs.dropWhile isBlank
  let (negative, cs) := match cs with
    | '-' :: rest => (true, rest)
    | _ => (false, cs)
  let digits := cs.takeWhile Char.isDigit
  match digits, (cs.dropWhile Char.isDigit).dropWhile isBlank with
  | _ :: _, ']' :: rest =>
    let n : Int := Nat.ofDigitChars 10 digits 0
    let n := if negative then -n else n
    if isInt64 n then some (n, rest) else none
  | _, _ => none

/-- The steps after the first name of a path. Each passes over a character or more, so the length is
steps enough. -/
def readSteps : Nat → List Char → Option (List Step)
  | _, [] => some []
  | 0, _ => none
  | fuel + 1, '.' :: cs =>
    match cs.takeWhile isNameChar with
    | [] => none
    | name => (readSteps fuel (cs.dropWhile isNameChar)).map (.name (String.ofList name) :: ·)
  | fuel + 1, '[' :: cs => do
    let (n, rest) ← readIndex cs
    (readSteps fuel rest).map (.index n :: ·)
  | _, _ => none

/-- The path that a key spells. A key that spells none is one name. -/
def path (key : String) : List Step :=
  let cs := key.toList
  match cs.takeWhile isNameChar, readSteps cs.length (cs.dropWhile isNameChar) with
  | _ :: _, some steps => .name (String.ofList (cs.takeWhile isNameChar)) :: steps
  | _, _ => [.name key]

/-- Adds the entries of a source to what earlier sources gave. -/
def Tree.layer (root : Tree) (source : List (String × Tree)) : Tree :=
  source.foldl (fun t e => Tree.place (path e.1) e.2 t) root

/-- The same entries in another order, in a source and in the tables below it. -/
inductive Reordered : List (String × Tree) → List (String × Tree) → Prop where
  | refl (es : List (String × Tree)) : Reordered es es
  | swap (e e' : String × Tree) (es : List (String × Tree)) : Reordered (e :: e' :: es) (e' :: e :: es)
  | cons (e : String × Tree) {es es' : List (String × Tree)} (h : Reordered es es') :
    Reordered (e :: es) (e :: es')
  | inside (key : String) {es es' : List (String × Tree)} (h : Reordered es es')
    (rest : List (String × Tree)) : Reordered ((key, .table es) :: rest) ((key, .table es') :: rest)
  | trans {es es' es'' : List (String × Tree)} (h : Reordered es es') (h' : Reordered es' es'') :
    Reordered es es''

end NamespaceTopology.Config
