import NamespaceTopology.Text.Printable

set_option autoImplicit false

/-!
Texts and bytes in double quotes, as diagnostics show them: every character that a reader could
mistake or not see is written as an escape.
-/
namespace NamespaceTopology.Text

/-- The lower-case hexadecimal digits of a number, without leading zeros. -/
def hex (n : Nat) : String := String.ofList (Nat.toDigits 16 n)

/-- One character between double quotes. A single quote stands for itself there. -/
def quotedChar (c : Char) : String :=
  if c = '"' then "\\\""
  else if c = '\\' then "\\\\"
  else if c = '\n' then "\\n"
  else if c = '\t' then "\\t"
  else if c = '\r' then "\\r"
  else if c = '\x00' then "\\0"
  else if combining.contains c || invisible.contains c then "\\u\x7b" ++ hex c.toNat ++ "\x7d"
  else c.toString

def quoted (s : String) : String := "\"" ++ String.join (s.toList.map quotedChar) ++ "\""

/-- One byte between double quotes: visible ASCII stands for itself. -/
def quotedByte (b : UInt8) : String :=
  let n := b.toNat
  if n = 0x0a then "\\n"
  else if n = 0x0d then "\\r"
  else if n = 0x09 then "\\t"
  else if n = 0x5c then "\\\\"
  else if n = 0x22 then "\\\""
  else if n = 0 then "\\0"
  else if 0x20 ≤ n ∧ n < 0x7f then (Char.ofNat n).toString
  else "\\x" ++ (if n < 16 then "0" else "") ++ hex n

def quotedBytes (bytes : List UInt8) : String :=
  "b\"" ++ String.join (bytes.map quotedByte) ++ "\""

example : quoted "a\"b\n" = "\"a\\\"b\\n\"" := by cbv

example : quotedBytes [0x61, 0x7f, 0] = "b\"a\\x7f\\0\"" := by cbv

end NamespaceTopology.Text
