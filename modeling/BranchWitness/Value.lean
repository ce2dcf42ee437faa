import BranchWitness.Text.Quoted

/-!
# Values and the operators on them

A value is a truth value, a 64-bit signed integer or a text.  This module gives the concrete
meaning of the comparison and arithmetic operators.  Everything else in the library that
evaluates an operator goes through `ArithOp.apply`, `CmpOp.apply` and `Value.negate`, so folding
a constant expression and evaluating a term under an assignment agree by construction.

* Integer arithmetic is exact or fails: `checked` accepts the mathematical result only when it
  fits in 64 bits.  Division and remainder are Euclidean.
* Where a number is expected a truth value counts as `0` or `1`.
* A text built by concatenation or repetition holds at most `maxTextBytes` bytes.
-/

namespace BranchWitness

/-- The sort of a value, a variable or a term. -/
inductive ValueSort where
  | bool
  | int
  | str
  deriving DecidableEq

namespace ValueSort

/-- The name of a sort in messages. -/
def label : ValueSort → String
  | bool => "Bool"
  | int => "Int"
  | str => "String"

/-- The name of a sort in written documents. -/
def tag : ValueSort → String
  | bool => "bool"
  | int => "int"
  | str => "str"

end ValueSort

/-- A concrete value: a literal of a program or the value of a variable. -/
inductive Value where
  | bool (b : Bool)
  | int (n : Int64)
  | str (s : String)
  deriving DecidableEq

namespace Value

/-- The sort of a value. -/
def sort : Value → ValueSort
  | bool _ => .bool
  | int _ => .int
  | str _ => .str

/-- The truth value held, if the value is one. -/
def toBool? : Value → Option Bool
  | bool b => some b
  | _ => none

/-- The number a value stands for: truth values count as `0` and `1`, texts are no numbers. -/
def toInt? : Value → Option Int64
  | bool b => some (if b then 1 else 0)
  | int n => some n
  | str _ => none

/-- How a value is shown. -/
def render : Value → String
  | bool b => if b then "true" else "false"
  | int n => toString n.toInt
  | str s => Text.quoted s

end Value

/-! ## Operators -/

/-- The comparison operators. -/
inductive CmpOp where
  | eq
  | ne
  | lt
  | le
  | gt
  | ge
  deriving DecidableEq

namespace CmpOp

/-- The operator's sign. -/
def symbol : CmpOp → String
  | eq => "=="
  | ne => "!="
  | lt => "<"
  | le => "<="
  | gt => ">"
  | ge => ">="

/-- The operator's name. -/
def name : CmpOp → String
  | eq => "Eq"
  | ne => "NotEq"
  | lt => "Lt"
  | le => "LtE"
  | gt => "Gt"
  | ge => "GtE"

/-- Whether the operator needs an order on its operands, beyond equality. -/
def isOrdering : CmpOp → Bool
  | eq | ne => false
  | lt | le | gt | ge => true

/-- The truth of a comparison in a linear order. -/
@[inline] def test {α : Type} [DecidableEq α] [LT α] [DecidableLT α] (op : CmpOp) (a b : α) :
    Bool :=
  match op with
  | eq => decide (a = b)
  | ne => !decide (a = b)
  | lt => decide (a < b)
  | le => !decide (b < a)
  | gt => decide (b < a)
  | ge => !decide (a < b)

end CmpOp

/-- The arithmetic operators. -/
inductive ArithOp where
  | add
  | sub
  | mul
  | div
  | mod
  deriving DecidableEq

namespace ArithOp

/-- The operator's sign. -/
def symbol : ArithOp → String
  | add => "+"
  | sub => "-"
  | mul => "*"
  | div => "/"
  | mod => "%"

/-- The operator's name. -/
def name : ArithOp → String
  | add => "Add"
  | sub => "Sub"
  | mul => "Mult"
  | div => "Div"
  | mod => "Mod"

end ArithOp

/-! ## Why an operator has no result -/

/-- The ways in which an operator on values can fail. -/
inductive ValueError where
  | concatenationTooLong
  | repetitionTooLong
  | unsupportedSorts (op : ArithOp) (left right : ValueSort)
  | undefinedResult (op : ArithOp) (left right : Int64)
  | unordered (left right : ValueSort)
  | notNegatable (v : Value)
  | operandCount (expected actual : Nat)
  deriving DecidableEq

/-- The greatest length, in bytes, of a text built by an operator. -/
def maxTextBytes : Nat := 1048576

/-- How a demand for a number of operands is worded. -/
def expectsOperands (expected actual : Nat) : String :=
  s!"expects {expected} operand" ++ (if expected = 1 then "" else "s") ++ s!", got {actual}"

/-- The wording of a failure. -/
def ValueError.message : ValueError → String
  | concatenationTooLong => s!"concatenation exceeds {maxTextBytes} bytes"
  | repetitionTooLong => s!"repetition exceeds {maxTextBytes} bytes"
  | unsupportedSorts op left right =>
      "unsupported operand sorts for '" ++ op.symbol ++ "': " ++ left.label ++ " and "
        ++ right.label
  | undefinedResult op left right =>
      "'" ++ toString left.toInt ++ " " ++ op.symbol ++ " " ++ toString right.toInt
        ++ "' is undefined"
  | unordered left right => "cannot order " ++ left.label ++ " against " ++ right.label
  | notNegatable v => "cannot negate " ++ v.render
  | operandCount expected actual => expectsOperands expected actual

/-! ## The meaning of the operators -/

/-- The 64-bit integer equal to `n`, if there is one. -/
def checked (n : Int) : Option Int64 :=
  if Int64.minValue.toInt ≤ n ∧ n ≤ Int64.maxValue.toInt then some (Int64.ofInt n) else none

/-- Integer arithmetic: the mathematical result when it is defined and fits in 64 bits.  The
remainder of the least integer by `-1` is refused together with the quotient. -/
def ArithOp.onInts (op : ArithOp) (a b : Int64) : Option Int64 :=
  match op with
  | add => checked (a.toInt + b.toInt)
  | sub => checked (a.toInt - b.toInt)
  | mul => checked (a.toInt * b.toInt)
  | div => if b.toInt = 0 then none else checked (a.toInt / b.toInt)
  | mod =>
      if b.toInt = 0 ∨ checked (a.toInt / b.toInt) = none then none
      else checked (a.toInt % b.toInt)

/-- The text `s` written `count` times. -/
def repeatText (s : String) (count : Nat) : String :=
  if s.isEmpty then "" else String.join (List.replicate count s)

/-- Concatenation within the length limit. -/
def concatTexts (a b : String) : Except ValueError Value :=
  if a.utf8ByteSize + b.utf8ByteSize > maxTextBytes then .error .concatenationTooLong
  else .ok (.str (a ++ b))

/-- Repetition within the length limit; a negative count is none. -/
def multiplyText (s : String) (count : Int64) : Except ValueError Value :=
  if s.utf8ByteSize * count.toInt.toNat > maxTextBytes then .error .repetitionTooLong
  else .ok (.str (repeatText s count.toInt.toNat))

/-- Arithmetic on two values that stand for numbers. -/
def ArithOp.onNumbers (op : ArithOp) (left right : Value) : Except ValueError Value :=
  match left.toInt?, right.toInt? with
  | some a, some b =>
      match op.onInts a b with
      | some n => .ok (.int n)
      | none => .error (.undefinedResult op a b)
  | _, _ => .error (.unsupportedSorts op left.sort right.sort)

/-- Arithmetic on values: `+` joins two texts, `*` repeats a text, and every other combination
is arithmetic on numbers. -/
def ArithOp.apply (op : ArithOp) (left right : Value) : Except ValueError Value :=
  match op, left, right with
  | .add, .str a, .str b => concatTexts a b
  | .mul, .str s, .bool b => multiplyText s (if b then 1 else 0)
  | .mul, .str s, .int n => multiplyText s n
  | .mul, .bool b, .str s => multiplyText s (if b then 1 else 0)
  | .mul, .int n, .str s => multiplyText s n
  | op, left, right => op.onNumbers left right

/-- Comparison of values: texts by code points, numbers by size; a text and a number are unequal
and have no order. -/
def CmpOp.apply (op : CmpOp) (left right : Value) : Except ValueError Bool :=
  match left, right with
  | .str a, .str b => .ok (op.test a b)
  | left, right =>
      match left.toInt?, right.toInt? with
      | some a, some b => .ok (op.test a b)
      | _, _ =>
          match op with
          | .eq => .ok false
          | .ne => .ok true
          | _ => .error (.unordered left.sort right.sort)

/-- The negative of a number. -/
def Value.negate (v : Value) : Except ValueError Value :=
  match v.toInt? with
  | none => .error (.notNegatable v)
  | some n =>
      match checked (-n.toInt) with
      | some m => .ok (.int m)
      | none => .error (.notNegatable v)

end BranchWitness
