import NamespaceTopology.Number.Decimal

set_option autoImplicit false

/-!
JSON text as a tree. Numbers are kept only as far as they are whole, and a text whose escapes name
half of a surrogate pair is accepted but has no value.
-/
namespace NamespaceTopology.Json

inductive Node where
  | null
  | bool (b : Bool)
  /-- A number, with its value if it is written as an integer. A negative zero is not. -/
  | number (n : Option Int)
  | text (s : Option String)
  | array (items : List Node)
  | object (members : List (Option String × Node))

def isSpace (c : Char) : Bool := c = ' ' || c = '\n' || c = '\t' || c = '\r'

def skipSpace (cs : List Char) : List Char := cs.dropWhile isSpace

def readHex4 : List Char → Option (Nat × List Char)
  | a :: b :: c :: d :: rest => (Decimal.readNat 16 [a, b, c, d]).map fun n => (n, rest)
  | _ => none

def escaped? : Char → Option Char
  | '"' => some '"'
  | '\\' => some '\\'
  | '/' => some '/'
  | 'b' => some '\x08'
  | 'f' => some '\x0c'
  | 'n' => some '\n'
  | 'r' => some '\r'
  | 't' => some '\t'
  | _ => none

/-- A unit of a text: a character, or half of a surrogate pair. -/
inductive Unit16 where
  | char (c : Char)
  | high (n : Nat)
  | low (n : Nat)

def Unit16.ofNumber (n : Nat) : Unit16 :=
  if 0xd800 ≤ n && n < 0xdc00 then .high n
  else if 0xdc00 ≤ n && n < 0xe000 then .low n
  else .char (Char.ofNat n)

/-- The units up to the closing quote, and what follows it. -/
def readUnits : Nat → List Char → Option (List Unit16 × List Char)
  | 0, _ => none
  | _, [] => none
  | fuel + 1, c :: cs =>
    if c = '"' then some ([], cs)
    else if c.toNat < 0x20 then none
    else if c = '\\' then
      match cs with
      | 'u' :: rest => do
        let (n, rest) ← readHex4 rest
        let (units, rest) ← readUnits fuel rest
        some (.ofNumber n :: units, rest)
      | e :: rest => do
        let c ← escaped? e
        let (units, rest) ← readUnits fuel rest
        some (.char c :: units, rest)
      | [] => none
    else do
      let (units, rest) ← readUnits fuel cs
      some (.char c :: units, rest)

def join : List Unit16 → Option (List Char)
  | [] => some []
  | .char c :: us => (join us).map (c :: ·)
  | .high h :: .low l :: us =>
    (join us).map (Char.ofNat (0x10000 + (h - 0xd800) * 0x400 + (l - 0xdc00)) :: ·)
  | _ => none

def readText (cs : List Char) : Option (Option String × List Char) :=
  (readUnits (cs.length + 1) cs).map fun (units, rest) => ((join units).map String.ofList, rest)

/-- The digits at the head of the text, at least one. -/
def readDigits1 (cs : List Char) : Option (List Char × List Char) :=
  match cs.takeWhile Decimal.isDigit with
  | [] => none
  | ds => some (ds, cs.dropWhile Decimal.isDigit)

/-- What stands after the integer part: whether it is a fraction or an exponent, and the rest. -/
def readTail (cs : List Char) : Option (Bool × List Char) := do
  let (fraction, cs) ← match cs with
    | '.' :: rest => do
      let (_, rest) ← readDigits1 rest
      some (true, rest)
    | _ => some (false, cs)
  match cs with
  | c :: rest =>
    if c = 'e' ∨ c = 'E' then do
      let (_, rest) ← readDigits1 (match rest with
        | '+' :: r => r
        | '-' :: r => r
        | r => r)
      some (true, rest)
    else some (fraction, cs)
  | [] => some (fraction, cs)

def readNumber (cs : List Char) : Option (Option Int × List Char) := do
  let (negative, cs) := match cs with
    | '-' :: rest => (true, rest)
    | _ => (false, cs)
  let (digits, cs) ← match cs with
    | '0' :: rest => some (['0'], rest)
    | _ => readDigits1 cs
  let (partly, cs) ← readTail cs
  let n ← Decimal.readNat 10 digits
  if partly ∨ (negative ∧ n = 0) then some (none, cs)
  else some (some (if negative then -(n : Int) else n), cs)

def readWord (word : String) (cs : List Char) : Option (List Char) :=
  if word.toList.isPrefixOf cs then some (cs.drop word.length) else none

mutual

/-- A value, spaces before it being passed over. -/
def readNode : Nat → List Char → Option (Node × List Char)
  | 0, _ => none
  | fuel + 1, cs =>
    match skipSpace cs with
    | 'n' :: rest => (readWord "ull" rest).map fun r => (.null, r)
    | 't' :: rest => (readWord "rue" rest).map fun r => (.bool true, r)
    | 'f' :: rest => (readWord "alse" rest).map fun r => (.bool false, r)
    | '"' :: rest => (readText rest).map fun (s, r) => (.text s, r)
    | '[' :: rest =>
      match skipSpace rest with
      | ']' :: r => some (.array [], r)
      | _ => (readItems fuel rest).map fun (items, r) => (.array items, r)
    | '\x7b' :: rest =>
      match skipSpace rest with
      | '\x7d' :: r => some (.object [], r)
      | _ => (readMembers fuel rest).map fun (members, r) => (.object members, r)
    | rest => (readNumber rest).map fun (n, r) => (.number n, r)

/-- At least one value and the bracket after the last. -/
def readItems : Nat → List Char → Option (List Node × List Char)
  | 0, _ => none
  | fuel + 1, cs => do
    let (item, rest) ← readNode fuel cs
    match skipSpace rest with
    | ',' :: rest => (readItems fuel rest).map fun (items, r) => (item :: items, r)
    | ']' :: rest => some ([item], rest)
    | _ => none

/-- At least one name with its value, and the brace after the last. -/
def readMembers : Nat → List Char → Option (List (Option String × Node) × List Char)
  | 0, _ => none
  | fuel + 1, cs =>
    match skipSpace cs with
    | '"' :: rest => do
      let (name, rest) ← readText rest
      match skipSpace rest with
      | ':' :: rest => do
        let (value, rest) ← readNode fuel rest
        match skipSpace rest with
        | ',' :: rest => (readMembers fuel rest).map fun (members, r) => ((name, value) :: members, r)
        | '\x7d' :: rest => some ([(name, value)], rest)
        | _ => none
      | _ => none
    | _ => none

end

/-- The one value that a text holds. Every step of reading passes over a character, so twice the
length is steps enough. -/
def read (text : String) : Option Node :=
  match readNode (2 * text.length + 2) text.toList with
  | some (node, rest) => if (skipSpace rest).isEmpty then some node else none
  | none => none

end NamespaceTopology.Json
