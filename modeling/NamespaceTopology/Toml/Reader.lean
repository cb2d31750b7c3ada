import NamespaceTopology.Toml.Table
import NamespaceTopology.Toml.Token

set_option autoImplicit false

/-!
TOML documents as configuration trees. A document that breaks a rule anywhere gives nothing.
-/
namespace NamespaceTopology.Toml

open Config (Tree)

mutual

/-- A value, within `depth` arrays and inline tables. -/
def readValue : Nat → Nat → List Char → Option (Tree × List Char)
  | 0, _, _ => none
  | fuel + 1, depth, cs =>
    match cs with
    | [] => none
    | c :: rest =>
      if c = '"' ∨ c = '\'' then (readText cs).map fun (s, r) => (.text (String.ofList s), r)
      else if c = '[' then
        if depthLimit ≤ depth + 1 then none
        else (readItems fuel (depth + 1) rest).map fun (items, r) => (.array items, r)
      else if c = '\x7b' then
        if depthLimit ≤ depth + 1 then none
        else match skipBlanks rest with
          | '\x7d' :: r => some (.table [], r)
          | _ => (readPairs fuel (depth + 1) [] rest).map fun (es, r) => (.table (toEntries es), r)
      else if c = 't' then (afterWord? "true" cs).map fun r => (.bool true, r)
      else if c = 'f' then (afterWord? "false" cs).map fun r => (.bool false, r)
      else match readDate cs with
        | some (date, r) => some (.text date, r)
        | none => (readNumber cs).map fun
          | (.int n, r) => (.int n, r)
          | (.float x, r) => (.float x, r)

/-- The items of an array and its closing bracket. A comma may follow the last item. -/
def readItems : Nat → Nat → List Char → Option (List Tree × List Char)
  | 0, _, _ => none
  | fuel + 1, depth, cs =>
    match skipLines cs.length cs with
    | ']' :: rest => some ([], rest)
    | cs => do
      let (item, rest) ← readValue fuel depth cs
      match skipLines rest.length rest with
      | ']' :: rest => some ([item], rest)
      | ',' :: rest => (readItems fuel depth rest).map fun (items, r) => (item :: items, r)
      | _ => none

/-- The entries of an inline table, at least one, and its closing brace. -/
def readPairs : Nat → Nat → Entries → List Char → Option (Entries × List Char)
  | 0, _, _, _ => none
  | fuel + 1, depth, entries, cs => do
    let ((path, name), rest) ← readKey cs
    let (v, rest) ← readValue fuel depth (skipBlanks (← expect '=' rest))
    let entries ← addValue path name v entries
    match skipBlanks rest with
    | '\x7d' :: rest => some (entries, rest)
    | ',' :: rest => readPairs fuel depth entries rest
    | _ => none

end

/-- The rest of a header after its opening brackets. -/
def readHeader (close : List Char) (cs : List Char) :
    Option ((List String × String) × List Char) := do
  let (key, rest) ← readKey cs
  if close.isPrefixOf rest then some (key, ← finishLine (rest.drop close.length)) else none

/-- Reads line by line. Each line passes over a character or more, so the length is lines enough. -/
def readLines : Nat → Draft → List Char → Option Entries
  | 0, _, _ => none
  | fuel + 1, d, cs =>
    match skipBlanks cs with
    | [] => d.close
    | '[' :: '[' :: rest => do
      let ((path, name), rest) ← readHeader [']', ']'] rest
      readLines fuel (← d.elementHeader path name) rest
    | '[' :: rest => do
      let ((path, name), rest) ← readHeader [']'] rest
      readLines fuel (← d.header path name) rest
    | c :: rest =>
      if c = '#' ∨ c = '\n' ∨ c = '\r' then do
        readLines fuel d (← finishLine (c :: rest))
      else do
        let ((path, name), rest) ← readKey (c :: rest)
        let (v, rest) ← readValue (2 * cs.length + 2) 0 (skipBlanks (← expect '=' rest))
        let current ← addValue path name v d.current
        readLines fuel { d with current } (← finishLine rest)

def skipMark : List Char → List Char
  | '\ufeff' :: cs => cs
  | cs => cs

def read (text : String) : Option (List (String × Tree)) :=
  (readLines (text.length + 1) .start (skipMark text.toList)).map toEntries

end NamespaceTopology.Toml
