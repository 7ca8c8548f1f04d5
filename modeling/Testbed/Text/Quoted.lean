/-!
# Quoted text

A text between quotes, as lists of names show it: quotes and backslashes are escaped, and so are
the characters that would not be seen.
-/

namespace Testbed.Text

/-- A number in hexadecimal digits. -/
def hexText (n : Nat) : List Char :=
  Nat.toDigits 16 n

/-- A character inside a quoted text. -/
def escapeShown (c : Char) : List Char :=
  if c = '"' then ['\\', '"']
  else if c = '\\' then ['\\', '\\']
  else if c = '\n' then ['\\', 'n']
  else if c = '\r' then ['\\', 'r']
  else if c = '\t' then ['\\', 't']
  else if c = '\x00' then ['\\', '0']
  else if c.toNat < 0x20 ∨ (0x7F ≤ c.toNat ∧ c.toNat < 0xA0) then
    ['\\', 'u', '{'] ++ hexText c.toNat ++ ['}']
  else [c]

/-- A quoted text. -/
def quotedText (s : String) : String :=
  String.ofList ('"' :: s.toList.flatMap escapeShown ++ ['"'])

end Testbed.Text
