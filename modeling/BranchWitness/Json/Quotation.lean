/-!
# The inside of a JSON string

A *quotation* is what stands between the quotes of a JSON string, escapes and all.  It is kept
as written, because whether it names a text is a question of its own: an escape can name half of
a surrogate pair, and such a quotation is well-formed JSON that names no text.

`Quotation.ofText` writes a text, `Quotation.text?` reads one.
-/

namespace BranchWitness

/-- The characters between the quotes of a JSON string. -/
abbrev Quotation := List Char

namespace Quotation

/-! ## Reading -/

/-- The value of a hexadecimal digit. -/
def hexDigit? (c : Char) : Option Nat :=
  if '0' ≤ c ∧ c ≤ '9' then some (c.toNat - '0'.toNat)
  else if 'a' ≤ c ∧ c ≤ 'f' then some (c.toNat - 'a'.toNat + 10)
  else if 'A' ≤ c ∧ c ≤ 'F' then some (c.toNat - 'A'.toNat + 10)
  else none

/-- The number that four hexadecimal digits name. -/
def codeUnit? (a b c d : Char) : Option Nat :=
  match hexDigit? a, hexDigit? b, hexDigit? c, hexDigit? d with
  | some a, some b, some c, some d => some (((a * 16 + b) * 16 + c) * 16 + d)
  | _, _, _, _ => none

/-- The character that a backslash and one letter stand for. -/
def shortEscape? (c : Char) : Option Char :=
  if c = '"' then some '"'
  else if c = '\\' then some '\\'
  else if c = '/' then some '/'
  else if c = 'b' then some '\x08'
  else if c = 'f' then some '\x0c'
  else if c = 'n' then some '\n'
  else if c = 'r' then some '\r'
  else if c = 't' then some '\t'
  else none

/-- Whether the code unit is the first of a surrogate pair. -/
def isLeading (unit : Nat) : Bool :=
  0xD800 ≤ unit && unit < 0xDC00

/-- Whether the code unit is the second of a surrogate pair. -/
def isTrailing (unit : Nat) : Bool :=
  0xDC00 ≤ unit && unit < 0xE000

/-- The character of a surrogate pair. -/
def pairChar (leading trailing : Nat) : Char :=
  Char.ofNat (0x10000 + (leading - 0xD800) * 0x400 + (trailing - 0xDC00))

/-- The characters a quotation names; none if an escape names half of a surrogate pair. -/
def chars? : Quotation → Option (List Char)
  | [] => some []
  | '\\' :: 'u' :: a :: b :: c :: d :: '\\' :: 'u' :: e :: f :: g :: h :: rest =>
      match codeUnit? a b c d with
      | none => none
      | some unit =>
          if isLeading unit then
            match codeUnit? e f g h with
            | none => none
            | some next =>
                if isTrailing next then (chars? rest).map (pairChar unit next :: ·) else none
          else if isTrailing unit then none
          else (chars? ('\\' :: 'u' :: e :: f :: g :: h :: rest)).map (Char.ofNat unit :: ·)
  | '\\' :: 'u' :: a :: b :: c :: d :: rest =>
      match codeUnit? a b c d with
      | none => none
      | some unit =>
          if isLeading unit || isTrailing unit then none
          else (chars? rest).map (Char.ofNat unit :: ·)
  | '\\' :: c :: rest =>
      match shortEscape? c with
      | none => none
      | some c => (chars? rest).map (c :: ·)
  | c :: rest => (chars? rest).map (c :: ·)

/-- The text a quotation names. -/
def text? (body : Quotation) : Option String :=
  body.chars?.map String.ofList

/-- Read a quotation up to its closing quote, and give the rest after it.  A control character
must be escaped, and only the escapes of JSON are allowed. -/
def scan : List Char → Option (Quotation × List Char)
  | [] => none
  | '"' :: rest => some ([], rest)
  | '\\' :: 'u' :: a :: b :: c :: d :: rest =>
      match codeUnit? a b c d, scan rest with
      | some _, some (body, after) => some ('\\' :: 'u' :: a :: b :: c :: d :: body, after)
      | _, _ => none
  | '\\' :: c :: rest =>
      match shortEscape? c, scan rest with
      | some _, some (body, after) => some ('\\' :: c :: body, after)
      | _, _ => none
  | c :: rest =>
      if c.toNat < 0x20 then none
      else
        match scan rest with
        | some (body, after) => some (c :: body, after)
        | none => none

/-! ## Writing -/

/-- A hexadecimal digit of a number below sixteen. -/
def hexDigit (n : Nat) : Char :=
  Nat.digitChar n

/-- How one character is written.  Control characters are escaped, all others but the quote and
the backslash stand for themselves. -/
def escape (c : Char) : Quotation :=
  if c = '"' then ['\\', '"']
  else if c = '\\' then ['\\', '\\']
  else if c = '\x08' then ['\\', 'b']
  else if c = '\x0c' then ['\\', 'f']
  else if c = '\n' then ['\\', 'n']
  else if c = '\r' then ['\\', 'r']
  else if c = '\t' then ['\\', 't']
  else if c.toNat < 0x20 then
    ['\\', 'u', '0', '0', hexDigit (c.toNat / 16), hexDigit (c.toNat % 16)]
  else [c]

/-- The quotation that names a text. -/
def ofText (s : String) : Quotation :=
  s.toList.flatMap escape

end Quotation

end BranchWitness
