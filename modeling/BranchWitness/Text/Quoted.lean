import BranchWitness.Text.Hidden

/-!
# Quoted texts

A text value is shown between double quotes.  A quote, a backslash and the four common blanks
have two-character escapes; every other character that a reader could not see, or that would
fuse with its neighbour, is spelled by its number in lower-case hexadecimal digits.
-/

namespace BranchWitness.Text

/-- The number `n` in lower-case hexadecimal digits, without leading zeros. -/
def hexadecimal (n : Nat) : String :=
  String.ofList (Nat.toDigits 16 n)

/-- How one character is shown inside double quotes. -/
def escapeQuoted (c : Char) : String :=
  if c = '"' then "\\\""
  else if c = '\\' then "\\\\"
  else if c = '\t' then "\\t"
  else if c = '\n' then "\\n"
  else if c = '\r' then "\\r"
  else if c = '\x00' then "\\0"
  else if isHidden c then "\\u\x7b" ++ hexadecimal c.toNat ++ "\x7d"
  else c.toString

/-- The text between double quotes, every character in its shown form. -/
def quoted (s : String) : String :=
  "\"" ++ String.join (s.toList.map escapeQuoted) ++ "\""

end BranchWitness.Text
