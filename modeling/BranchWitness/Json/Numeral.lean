import BranchWitness.Decimal.Nearest

/-!
# Numbers as JSON writes them

A numeral is the written form of a number: sign, whole part, digits after the point and
exponent.  The notation matters, not only the value: `1.0` and `1e0` are not integers here, and
neither is `-0`, which only a number with a signed zero can hold.
-/

namespace BranchWitness

/-- A number as JSON writes it. -/
structure Numeral where
  /-- Whether it starts with a minus sign. -/
  negative : Bool
  /-- The digits before the point. -/
  whole : Nat
  /-- The digits after the point; none if there is no point. -/
  fraction : List Char
  /-- The exponent, if there is one. -/
  exponent : Option Int

namespace Numeral

/-- The number that decimal digits name, after the digits already read. -/
def digitsValue (digits : List Char) : Nat :=
  digits.foldl (fun value c => value * 10 + (c.toNat - '0'.toNat)) 0

/-- Whether the character is a decimal digit. -/
def isDigit (c : Char) : Bool :=
  '0' ≤ c && c ≤ '9'

/-- Split off the digits at the front. -/
def takeDigits (cs : List Char) : List Char × List Char :=
  (cs.takeWhile isDigit, cs.dropWhile isDigit)

/-! ## Reading -/

/-- The part of a numeral after its whole part: the digits after a point, at least one. -/
def scanFraction : List Char → Option (List Char × List Char)
  | '.' :: rest =>
      match takeDigits rest with
      | ([], _) => none
      | (digits, after) => some (digits, after)
  | cs => some ([], cs)

/-- The digits of an exponent, at least one. -/
def scanExponentDigits (negative : Bool) (cs : List Char) : Option (Option Int × List Char) :=
  match takeDigits cs with
  | ([], _) => none
  | (digits, after) =>
      let value : Int := digitsValue digits
      some (some (if negative then -value else value), after)

/-- The exponent of a numeral, if there is one. -/
def scanExponent : List Char → Option (Option Int × List Char)
  | c :: rest =>
      if c = 'e' ∨ c = 'E' then
        match rest with
        | '+' :: rest => scanExponentDigits false rest
        | '-' :: rest => scanExponentDigits true rest
        | rest => scanExponentDigits false rest
      else some (none, c :: rest)
  | [] => some (none, [])

/-- The whole part of a numeral: a zero alone, or digits that do not start with one. -/
def scanWhole (cs : List Char) : Option (Nat × List Char) :=
  match takeDigits cs with
  | ([], _) => none
  | (['0'], after) => some (0, after)
  | ('0' :: _, _) => none
  | (digits, after) => some (digitsValue digits, after)

/-- Read a numeral without its sign. -/
def scanUnsigned (negative : Bool) (cs : List Char) : Option (Numeral × List Char) :=
  match scanWhole cs with
  | none => none
  | some (whole, rest) =>
      match scanFraction rest with
      | none => none
      | some (fraction, rest) =>
          match scanExponent rest with
          | none => none
          | some (exponent, rest) => some (⟨negative, whole, fraction, exponent⟩, rest)

/-- Read a numeral and give the rest after it. -/
def scan : List Char → Option (Numeral × List Char)
  | '-' :: rest => scanUnsigned true rest
  | cs => scanUnsigned false cs

/-! ## Writing -/

/-- The numeral of an integer. -/
def ofInt (n : Int) : Numeral :=
  ⟨decide (n < 0), n.natAbs, [], none⟩

/-- A numeral in characters. -/
def chars (n : Numeral) : List Char :=
  (if n.negative then ['-'] else []) ++ Nat.toDigits 10 n.whole
    ++ (if n.fraction.isEmpty then [] else '.' :: n.fraction)
    ++ (match n.exponent with
        | none => []
        | some e => 'e' :: (toString e).toList)

/-! ## What a numeral stands for -/

/-- The integer a numeral names.  A point, an exponent or a minus sign before zero makes it a
number of another kind. -/
def integer? (n : Numeral) : Option Int :=
  if n.fraction.isEmpty ∧ n.exponent = none ∧ ¬ (n.negative ∧ n.whole = 0) then
    some (if n.negative then -(n.whole : Int) else n.whole)
  else none

/-- Put digits behind a number as long as it fits in 64 bits, and give the digits that are
left. -/
def absorb (value : Nat) : List Char → Nat × List Char
  | [] => (value, [])
  | c :: rest =>
      let longer := value * 10 + (c.toNat - '0'.toNat)
      if longer < UInt64.size then absorb longer rest else (value, c :: rest)

/-- A significand of 64 bits and the power of ten it is multiplied with.  Of the whole part, the
digits that do not fit count as zeros; of the fraction, they are left out. -/
def scaled (n : Numeral) : Nat × Int :=
  let (significand, zeros) := absorb 0 (Nat.toDigits 10 n.whole)
  let (significand, unread) := absorb significand n.fraction
  (significand, zeros.length - (n.fraction.length - unread.length) + n.exponent.getD 0)

/-- Whether the number lies in the range of double-precision numbers.  It is computed as the
product of two of them, the significand and the power of ten, each rounded for itself.  So near
the end of the range the digits decide together with the way they are written. -/
def inDoubleRange (n : Numeral) : Bool :=
  let (significand, power) := n.scaled
  if significand = 0 ∨ power < 0 then true
  else
    match Decimal.nearest? significand 0, Decimal.nearest? 1 power with
    | some digits, some scale => (digits.mul? scale).isSome
    | _, _ => false

end Numeral

end BranchWitness
