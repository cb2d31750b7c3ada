import NamespaceTopology.Number.Binary64
import NamespaceTopology.Number.Decimal

set_option autoImplicit false

/-!
The parts of a TOML line: blanks and comments, quoted texts, keys, numbers and dates. A reader gives
what it read and the characters after it.
-/
namespace NamespaceTopology.Toml

def isBlank (c : Char) : Bool := c = ' ' || c = '\t'

def skipBlanks (cs : List Char) : List Char := cs.dropWhile isBlank

/-- A character that may stand in a comment or a text: a tab, or anything but a control. -/
def isPlain (c : Char) : Bool := c = '\t' || (0x20 ≤ c.toNat && c.toNat ≠ 0x7f)

/-- What follows the end of a line, if that stands here. -/
def lineEnd? : List Char → Option (List Char)
  | '\n' :: cs => some cs
  | '\r' :: '\n' :: cs => some cs
  | _ => none

/-- What follows a comment, if one stands here. -/
def skipComment : List Char → List Char
  | '#' :: cs => cs.dropWhile isPlain
  | cs => cs

/-- What follows the last blanks and the comment of a line. The text may end there. -/
def finishLine (cs : List Char) : Option (List Char) :=
  match skipComment (skipBlanks cs) with
  | [] => some []
  | cs => lineEnd? cs

/-- Blanks, comments and ends of lines, up to anything else. -/
def skipLines : Nat → List Char → List Char
  | 0, cs => cs
  | fuel + 1, cs =>
    match lineEnd? (skipComment (skipBlanks cs)) with
    | some rest => skipLines fuel rest
    | none => skipBlanks cs

/-- Blanks and ends of lines, up to anything else. -/
def skipEmpty : List Char → List Char
  | ' ' :: cs => skipEmpty cs
  | '\t' :: cs => skipEmpty cs
  | '\n' :: cs => skipEmpty cs
  | '\r' :: '\n' :: cs => skipEmpty cs
  | cs => cs

/-! ## Texts -/

/-- The character with a number, unless the number is half of a surrogate pair or too great. -/
def charOf? (n : Nat) : Option Char := if n.isValidChar then some (Char.ofNat n) else none

/-- The character of an escape, after the backslash. -/
def readEscape : List Char → Option (Char × List Char)
  | 'b' :: cs => some ('\x08', cs)
  | 't' :: cs => some ('\t', cs)
  | 'n' :: cs => some ('\n', cs)
  | 'f' :: cs => some ('\x0c', cs)
  | 'r' :: cs => some ('\r', cs)
  | '"' :: cs => some ('"', cs)
  | '\\' :: cs => some ('\\', cs)
  | 'u' :: cs => do
    let c ← charOf? (← Decimal.readNat 16 (← takeDigits 4 cs))
    some (c, cs.drop 4)
  | 'U' :: cs => do
    let c ← charOf? (← Decimal.readNat 16 (← takeDigits 8 cs))
    some (c, cs.drop 8)
  | _ => none
where
  takeDigits (n : Nat) (cs : List Char) : Option (List Char) :=
    if n ≤ cs.length then some (cs.take n) else none

/-- The rest of a text in double quotes. -/
def readBasic : Nat → List Char → Option (List Char × List Char)
  | 0, _ => none
  | _, [] => none
  | fuel + 1, c :: cs =>
    if c = '"' then some ([], cs)
    else if c = '\\' then do
      let (e, rest) ← readEscape cs
      let (s, rest) ← readBasic fuel rest
      some (e :: s, rest)
    else if isPlain c then do
      let (s, rest) ← readBasic fuel cs
      some (c :: s, rest)
    else none

/-- The rest of a text in single quotes, in which nothing is escaped. -/
def readLiteral : List Char → Option (List Char × List Char)
  | [] => none
  | c :: cs =>
    if c = '\'' then some ([], cs)
    else if isPlain c then (readLiteral cs).map fun (s, rest) => (c :: s, rest)
    else none

/-- The end of a text in triple quotes. One or two quotes before the closing ones belong to it. -/
def closing? (q : Char) : List Char → Option (List Char × List Char)
  | a :: b :: c :: cs =>
    if a = q ∧ b = q ∧ c = q then
      match cs with
      | d :: e :: rest =>
        if d = q ∧ e = q then some ([q, q], rest) else if d = q then some ([q], e :: rest)
        else some ([], cs)
      | [d] => if d = q then some ([q], []) else some ([], cs)
      | [] => some ([], [])
    else none
  | _ => none

/-- The rest of a text in three double quotes. A backslash at the end of a line joins it to the next
text, and every line ends in a line feed. -/
def readLongBasic : Nat → List Char → Option (List Char × List Char)
  | 0, _ => none
  | fuel + 1, cs =>
    match closing? '"' cs with
    | some done => some done
    | none =>
      match lineEnd? cs with
      | some rest => (readLongBasic fuel rest).map fun (s, r) => ('\n' :: s, r)
      | none =>
        match cs with
        | [] => none
        | c :: cs =>
          if c = '\\' then
            match lineEnd? (skipBlanks cs) with
            | some rest => readLongBasic fuel (skipEmpty rest)
            | none => do
              let (e, rest) ← readEscape cs
              let (s, rest) ← readLongBasic fuel rest
              some (e :: s, rest)
          else if isPlain c then (readLongBasic fuel cs).map fun (s, r) => (c :: s, r)
          else none

/-- The rest of a text in three single quotes. -/
def readLongLiteral : Nat → List Char → Option (List Char × List Char)
  | 0, _ => none
  | fuel + 1, cs =>
    match closing? '\'' cs with
    | some done => some done
    | none =>
      match lineEnd? cs with
      | some rest => (readLongLiteral fuel rest).map fun (s, r) => ('\n' :: s, r)
      | none =>
        match cs with
        | [] => none
        | c :: cs =>
          if isPlain c then (readLongLiteral fuel cs).map fun (s, r) => (c :: s, r) else none

/-- A text in any quotes. The end of a line right after three quotes does not belong to it. -/
def readText (cs : List Char) : Option (List Char × List Char) :=
  match cs with
  | '"' :: '"' :: '"' :: rest => readLongBasic (cs.length + 1) ((lineEnd? rest).getD rest)
  | '\'' :: '\'' :: '\'' :: rest => readLongLiteral (cs.length + 1) ((lineEnd? rest).getD rest)
  | '"' :: rest => readBasic (cs.length + 1) rest
  | '\'' :: rest => readLiteral rest
  | _ => none

/-! ## Keys -/

def isBareChar (c : Char) : Bool := c.isAlphanum || c = '_' || c = '-'

/-- One name of a key, bare or in quotes. -/
def readName (cs : List Char) : Option (String × List Char) :=
  match cs with
  | '"' :: rest => (readBasic (cs.length + 1) rest).map fun (s, r) => (String.ofList s, r)
  | '\'' :: rest => (readLiteral rest).map fun (s, r) => (String.ofList s, r)
  | _ =>
    match cs.takeWhile isBareChar with
    | [] => none
    | name => some (String.ofList name, cs.dropWhile isBareChar)

/-- Names joined by points, with blanks around each. -/
def readNames : Nat → List Char → Option (List String × List Char)
  | 0, _ => none
  | fuel + 1, cs => do
    let (name, rest) ← readName (skipBlanks cs)
    match skipBlanks rest with
    | '.' :: rest => (readNames fuel rest).map fun (names, r) => (name :: names, r)
    | rest => some ([name], rest)

/-- Keys and values may not go as deep as this. -/
def depthLimit : Nat := 80

/-- A key: the names of the tables around it, its own name, and the rest. -/
def readKey (cs : List Char) : Option ((List String × String) × List Char) := do
  let (names, rest) ← readNames (cs.length + 1) cs
  if depthLimit ≤ names.length then none
  else (names.getLast?).map fun name => ((names.dropLast, name), rest)

/-! ## Numbers -/

/-- Digits in a base, single underscores standing between two of them. -/
def readDigits (base : Nat) : List Char → Option (List Char × List Char)
  | [] => none
  | c :: cs =>
    if (Decimal.digit? base c).isSome then
      match cs with
      | '_' :: rest => (readDigits base rest).map fun (ds, r) => (c :: ds, r)
      | d :: rest =>
        if (Decimal.digit? base d).isSome then
          (readDigits base (d :: rest)).map fun (ds, r) => (c :: ds, r)
        else some ([c], cs)
      | [] => some ([c], [])
    else none

/-- The digits of a decimal integer. A zero in front stands alone. -/
def readWhole : List Char → Option (List Char × List Char)
  | '0' :: cs => some (['0'], cs)
  | cs => readDigits 10 cs

inductive Number where
  | int (n : Int)
  | float (x : Binary64)

/-- An integer that fits 64 bits. -/
def Number.ofInt? (n : Int) : Option Number :=
  if isInt64 n then some (.int n) else none

def readExponent : List Char → Option (Option Int × List Char)
  | c :: cs =>
    if c = 'e' ∨ c = 'E' then do
      let (negative, rest) := Decimal.readSign cs
      let (digits, rest) ← readDigits 10 rest
      let n ← Decimal.readNat 10 digits
      some (some (if negative then -(n : Int) else n), rest)
    else some (none, c :: cs)
  | [] => some (none, [])

def readFraction : List Char → Option (Option (List Char) × List Char)
  | '.' :: cs => (readDigits 10 cs).map fun (ds, rest) => (some ds, rest)
  | cs => some (none, cs)

/-- A decimal number after its sign. Too great a number is refused, unless it is negative. -/
def readDecimal (negative : Bool) (cs : List Char) : Option (Number × List Char) := do
  let (whole, cs) ← readWhole cs
  let (fraction, cs) ← readFraction cs
  let (exponent, cs) ← readExponent cs
  let n ← Decimal.readNat 10 (whole ++ fraction.getD [])
  if fraction.isNone ∧ exponent.isNone then do
    let n ← Number.ofInt? (if negative then -(n : Int) else n)
    some (n, cs)
  else
    match Binary64.ofDecimal negative n (exponent.getD 0 - (fraction.getD []).length) with
    | .infinite false => none
    | x => some (.float x, cs)

def afterWord? (word : String) (cs : List Char) : Option (List Char) :=
  if word.toList.isPrefixOf cs then some (cs.drop word.length) else none

/-- An integer in another base, after its mark. -/
def readBased (base : Nat) (cs : List Char) : Option (Number × List Char) := do
  let (digits, rest) ← readDigits base cs
  let n ← Number.ofInt? (← Decimal.readNat base digits)
  some (n, rest)

def readNumber (cs : List Char) : Option (Number × List Char) :=
  match cs with
  | '0' :: 'x' :: rest => readBased 16 rest
  | '0' :: 'o' :: rest => readBased 8 rest
  | '0' :: 'b' :: rest => readBased 2 rest
  | _ =>
    let (negative, rest) := Decimal.readSign cs
    match afterWord? "inf" rest, afterWord? "nan" rest with
    | some r, _ => some (.float (.infinite negative), r)
    | _, some r => some (.float .nan, r)
    | none, none => readDecimal negative rest

/-! ## Dates -/

/-- A number of exactly `n` digits within bounds. -/
def readFixed (n low high : Nat) (cs : List Char) : Option (Nat × List Char) := do
  let v ← if n ≤ cs.length then Decimal.readNat 10 (cs.take n) else none
  if low ≤ v ∧ v ≤ high then some (v, cs.drop n) else none

def expect (c : Char) : List Char → Option (List Char)
  | d :: cs => if d = c then some cs else none
  | [] => none

/-- A number in at least `width` digits. -/
def padded (width n : Nat) : String :=
  let ds := Nat.toDigits 10 n
  String.ofList (List.replicate (width - ds.length) '0' ++ ds)

def daysIn (year month : Nat) : Nat :=
  if month = 2 then
    if year % 4 = 0 ∧ (year % 100 ≠ 0 ∨ year % 400 = 0) then 29 else 28
  else if month = 4 ∨ month = 6 ∨ month = 9 ∨ month = 11 then 30
  else 31

def readDay (cs : List Char) : Option (String × List Char) := do
  let (year, cs) ← readFixed 4 0 9999 cs
  let (month, cs) ← readFixed 2 1 12 (← expect '-' cs)
  let (day, cs) ← readFixed 2 1 (daysIn year month) (← expect '-' cs)
  some (padded 4 year ++ "-" ++ padded 2 month ++ "-" ++ padded 2 day, cs)

/-- Decimals of a second, the first nine of them counting, without zeros at the end. -/
def readDecimals (cs : List Char) : String × List Char :=
  match cs with
  | '.' :: rest =>
    match rest.takeWhile Decimal.isDigit with
    | [] => ("", cs)
    | ds =>
      let kept := ((ds.take 9).reverse.dropWhile (· = '0')).reverse
      (if kept.isEmpty then "" else "." ++ String.ofList kept, rest.dropWhile Decimal.isDigit)
  | _ => ("", cs)

/-- A time of day. A minute may have a sixty-first second. -/
def readTime (cs : List Char) : Option (String × List Char) := do
  let (hour, cs) ← readFixed 2 0 23 cs
  let (minute, cs) ← readFixed 2 0 59 (← expect ':' cs)
  let (second, cs) ← readFixed 2 0 60 (← expect ':' cs)
  let (decimals, cs) := readDecimals cs
  some (padded 2 hour ++ ":" ++ padded 2 minute ++ ":" ++ padded 2 second ++ decimals, cs)

/-- The distance from universal time. No distance backwards is none. -/
def readOffset (cs : List Char) : Option (String × List Char) :=
  match cs with
  | 'Z' :: rest => some ("Z", rest)
  | 'z' :: rest => some ("Z", rest)
  | c :: rest =>
    if c = '+' ∨ c = '-' then do
      let (hour, rest) ← readFixed 2 0 23 rest
      let (minute, rest) ← readFixed 2 0 59 (← expect ':' rest)
      let sign := if c = '-' ∧ hour + minute ≠ 0 then "-" else "+"
      some (sign ++ padded 2 hour ++ ":" ++ padded 2 minute, rest)
    else none
  | [] => none

/-- A date, a time or both, in their normal form. -/
def readDate (cs : List Char) : Option (String × List Char) :=
  match readDay cs with
  | none => readTime cs
  | some (day, rest) =>
    match rest with
    | [] => some (day, [])
    | c :: after =>
      match if c = 'T' ∨ c = 't' ∨ c = ' ' then readTime after else none with
      | none => some (day, rest)
      | some (time, rest) =>
        match readOffset rest with
        | none => some (day ++ "T" ++ time, rest)
        | some (offset, rest) => some (day ++ "T" ++ time ++ offset, rest)

end NamespaceTopology.Toml
