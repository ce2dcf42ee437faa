import BranchWitness.Value

/-!
# Programs

The programs under analysis: modules of functions, whose bodies are statements over expressions.
Operators and types stand in a program as the tags it uses; what a tag means, and whether it
means anything, is settled when the expression is resolved.
-/

namespace BranchWitness

/-- A line of the program's text. -/
abbrev Line := UInt32

/-- An expression. -/
inductive Expr where
  | identifier (name : String)
  | literal (value : Value)
  | unary (op : String) (operand : Expr)
  | connective (op : String) (operands : List Expr)
  | comparison (left : Expr) (ops : List String) (comparators : List Expr)
  | arithmetic (op : String) (left right : Expr)

/-- A statement. -/
inductive Stmt where
  | declaration (line : Line) (target annotation : String) (value : Option Expr)
  | reassignment (line : Line) (targets : List String) (value : Expr)
  | conditional (line : Line) (test : Expr) (body orelse : List Stmt)
  | loop (line : Line) (test : Expr) (body : List Stmt)
  | other (line : Line) (label : Option String)

/-- The line of a statement. -/
def Stmt.line : Stmt → Line
  | declaration line _ _ _ => line
  | reassignment line _ _ => line
  | conditional line _ _ _ => line
  | loop line _ _ => line
  | other line _ => line

/-- A parameter with the tag of its type. -/
structure Param where
  /-- The name of the parameter. -/
  name : String
  /-- The tag of its type. -/
  type : String
  deriving DecidableEq

/-- A function. -/
structure Function where
  /-- The name of the function. -/
  name : String
  /-- Its parameters, in order. -/
  params : List Param := []
  /-- The statements of its body, in order. -/
  body : List Stmt := []

/-- A module: its functions in order. -/
structure Module where
  /-- The functions of the module. -/
  functions : List Function := []

end BranchWitness
