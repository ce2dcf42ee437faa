import BranchWitness.Decimal.Shortest
import BranchWitness.Yaml

/-!
# Plain scalars

A scalar without quotes is read as the first of these that it spells: nothing, a truth value, an
integer, a floating-point number; failing all, it is a text.  Digits that start with a needless
zero are a text.  An integer must fit in 64 bits: a longer one is refused, unless it is so long
that only a floating-point number holds it.
-/

namespace BranchWitness.Yaml

/-- The value of a digit in a base up to sixteen. -/
def digitValue? (base : Nat) (c : Char) : Option Nat :=
  let value? :=
    if '0' ≤ c ∧ c ≤ '9' then some (c.toNat - '0'.toNat)
    else if 'a' ≤ c ∧ c ≤ 'f' then some (c.toNat - 'a'.toNat + 10)
    else if 'A' ≤ c ∧ c ≤ 'F' then some (c.toNat - 'A'.toNat + 10)
    else none
  value?.filter fun value => value < base

/-- The number that digits in a base name, at least one of them. -/
def number? (base : Nat) (digits : List Char) : Option Nat :=
  if digits.isEmpty then none
  else digits.foldlM (fun value c => (digitValue? base c).map fun d => value * base + d) 0

/-- A number's sign and the rest of it. -/
def splitSign : List Char → Bool × List Char
  | '-' :: rest => (true, rest)
  | '+' :: rest => (false, rest)
  | cs => (false, cs)

/-- Whether the characters are digits of which the first is a needless zero. -/
def hasNeedlessZero (cs : List Char) : Bool :=
  match cs with
  | '0' :: c :: rest => (c :: rest).all fun c => (digitValue? 10 c).isSome
  | _ => false

/-- The magnitude of an integer: decimal digits, or digits of another base behind their mark. -/
def magnitude? (cs : List Char) : Option Nat :=
  match cs with
  | '0' :: 'x' :: digits => number? 16 digits
  | '0' :: 'o' :: digits => number? 8 digits
  | '0' :: 'b' :: digits => number? 2 digits
  | digits => if hasNeedlessZero digits then none else number? 10 digits

/-- What the characters say as an integer. -/
inductive IntReading where
  | noInteger
  | integer (n : Int)
  | tooLong

/-- Read an integer of 64 bits, signed or not. -/
def readInt (cs : List Char) : IntReading :=
  let (negative, body) := splitSign cs
  match magnitude? body with
  | none => .noInteger
  | some n =>
      if negative then
        if n ≤ Nat.pow 2 63 then .integer (-(n : Int))
        else if n ≤ Nat.pow 2 127 then .tooLong
        else .noInteger
      else if n < Nat.pow 2 64 then .integer n
      else if n < Nat.pow 2 128 then .tooLong
      else .noInteger

/-- Split off the decimal digits at the front. -/
def splitDigits (cs : List Char) : List Char × List Char :=
  (cs.takeWhile (fun c => (digitValue? 10 c).isSome),
    cs.dropWhile (fun c => (digitValue? 10 c).isSome))

/-- The exponent at the end of a floating-point number; zero if there is none. -/
def exponent? : List Char → Option Int
  | [] => some 0
  | c :: rest =>
      if c = 'e' ∨ c = 'E' then
        let (negative, digits) := splitSign rest
        (number? 10 digits).map fun n => if negative then -(n : Int) else n
      else none

/-- How a floating-point number is shown: positionally when that takes at most sixteen digits
before the point or four zeros after it, and with an exponent otherwise. -/
def showFloat (negative : Bool) (digits : Nat) (power : Int) : String :=
  let text := Nat.toDigits 10 digits
  let point : Int := text.length + power
  let shown :=
    if digits = 0 then "0.0".toList
    else if 0 ≤ power ∧ point ≤ 16 then text ++ List.replicate power.toNat '0' ++ ['.', '0']
    else if 0 < point ∧ point ≤ 16 then
      text.take point.toNat ++ ['.'] ++ text.drop point.toNat
    else if -5 < point ∧ point ≤ 0 then
      ['0', '.'] ++ List.replicate (-point).toNat '0' ++ text
    else
      text.take 1 ++ (if text.length = 1 then [] else '.' :: text.drop 1)
        ++ 'e' :: (toString (point - 1)).toList
  String.ofList (if negative then '-' :: shown else shown)

/-- The text of a floating-point number: digits with a point among them or not, and an exponent
or not; and the names of the infinities and of the absence of a number. -/
def float? (cs : List Char) : Option String :=
  let (negative, body) := splitSign cs
  let name := String.ofList body
  if name = ".inf" ∨ name = ".Inf" ∨ name = ".INF" then
    some (if negative then "-.inf" else ".inf")
  else if cs = body ∧ (name = ".nan" ∨ name = ".NaN" ∨ name = ".NAN") then some ".nan"
  else
    let (whole, rest) := splitDigits body
    let (fraction, rest) :=
      match rest with
      | '.' :: rest => splitDigits rest
      | rest => ([], rest)
    match number? 10 (whole ++ fraction), exponent? rest with
    | some digits, some power =>
        (Decimal.nearest? digits (power - fraction.length)).map fun double =>
          let decimal := Decimal.shortest double
          showFloat negative decimal.1 decimal.2
    | _, _ => none

/-- The spellings of nothing. -/
def isNull (text : String) : Bool :=
  text = "~" || text = "null" || text = "Null" || text = "NULL"

/-- The truth value that a text spells. -/
def boolean? (text : String) : Option Bool :=
  if text = "true" ∨ text = "True" ∨ text = "TRUE" then some true
  else if text = "false" ∨ text = "False" ∨ text = "FALSE" then some false
  else none

/-- The value of a plain scalar. -/
def ofPlain? (cs : List Char) : Option Yaml :=
  let text := String.ofList cs
  if text = "" ∨ isNull text then some null
  else
    match boolean? text, readInt cs with
    | some b, _ => some (bool b)
    | none, .integer n => some (int n)
    | none, .tooLong => none
    | none, .noInteger =>
        if hasNeedlessZero (splitSign cs).2 then some (str text)
        else
          match float? cs with
          | some shown => some (float shown)
          | none => some (str text)

end BranchWitness.Yaml
