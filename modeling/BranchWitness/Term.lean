import BranchWitness.Ascending
import BranchWitness.Value

/-!
# Terms over symbolic variables

A term is what a program's expression becomes once its names are resolved: a tree of logical,
comparison and arithmetic operators over variables and constants.  This module holds the shape
of terms, their sort as read off the outermost operator, the way they are shown, the variables
they mention and the replacement of a variable by a term.

Nothing here asks a term to be well-sorted: the operators of `BranchWitness.Operator` build
well-sorted terms only, and evaluation gives an ill-sorted operation no value.
-/

namespace BranchWitness

/-- A symbolic variable.  The number tells variables apart; name and sort go with it. -/
structure Var where
  /-- The number of the variable. -/
  id : Nat
  /-- The name it has in the program. -/
  name : String
  /-- The sort of its values. -/
  sort : ValueSort
  deriving DecidableEq

/-- Variables come in the order of their numbers. -/
def Var.before (x y : Var) : Bool :=
  decide (x.id < y.id)

/-- A term over symbolic variables. -/
inductive Term where
  | var (x : Var)
  | const (v : Value)
  | not (operand : Term)
  | and (operands : List Term)
  | or (operands : List Term)
  | neg (operand : Term)
  | cmp (op : CmpOp) (left right : Term)
  | arith (op : ArithOp) (left right : Term)

namespace Term

/-- The sort of a term, as its outermost operator tells it.  A sum has the sort of its left
operand when that is a text, and all other arithmetic gives a number. -/
def sort : Term → ValueSort
  | var x => x.sort
  | const v => v.sort
  | not _ | and _ | or _ | cmp _ _ _ => .bool
  | neg _ => .int
  | arith .add left _ => if left.sort = .str then .str else .int
  | arith _ _ _ => .int

/-- The equation between two terms. -/
def equals (left right : Term) : Term :=
  cmp .eq left right

/-! ## Equality -/

mutual

/-- Whether two terms are the same tree. -/
def same : Term → Term → Bool
  | var x, var y => decide (x = y)
  | const v, const w => decide (v = w)
  | not t, not u => same t u
  | and ts, and us => sameAll ts us
  | or ts, or us => sameAll ts us
  | neg t, neg u => same t u
  | cmp op l r, cmp op' l' r' => decide (op = op') && same l l' && same r r'
  | arith op l r, arith op' l' r' => decide (op = op') && same l l' && same r r'
  | _, _ => false

/-- Whether two lists of terms are the same trees in the same order. -/
def sameAll : List Term → List Term → Bool
  | [], [] => true
  | t :: ts, u :: us => same t u && sameAll ts us
  | _, _ => false

end

mutual

theorem eq_of_same : ∀ {t u : Term}, same t u = true → t = u
  | var _, u, h => by cases u <;> simp_all [same]
  | const _, u, h => by cases u <;> simp_all [same]
  | not t, u, h => by
      cases u <;> simp only [same, Bool.false_eq_true] at h
      rw [eq_of_same h]
  | and ts, u, h => by
      cases u <;> simp only [same, Bool.false_eq_true] at h
      rw [eq_of_sameAll h]
  | or ts, u, h => by
      cases u <;> simp only [same, Bool.false_eq_true] at h
      rw [eq_of_sameAll h]
  | neg t, u, h => by
      cases u <;> simp only [same, Bool.false_eq_true] at h
      rw [eq_of_same h]
  | cmp op l r, u, h => by
      cases u <;> simp only [same, Bool.false_eq_true, Bool.and_eq_true, decide_eq_true_eq] at h
      rw [h.1.1, eq_of_same h.1.2, eq_of_same h.2]
  | arith op l r, u, h => by
      cases u <;> simp only [same, Bool.false_eq_true, Bool.and_eq_true, decide_eq_true_eq] at h
      rw [h.1.1, eq_of_same h.1.2, eq_of_same h.2]

theorem eq_of_sameAll : ∀ {ts us : List Term}, sameAll ts us = true → ts = us
  | [], us, h => by cases us <;> simp_all [sameAll]
  | t :: ts, us, h => by
      cases us <;> simp only [sameAll, Bool.false_eq_true, Bool.and_eq_true] at h
      rw [eq_of_same h.1, eq_of_sameAll h.2]

end

mutual

theorem same_refl : ∀ t : Term, same t t = true
  | var _ => by simp [same]
  | const _ => by simp [same]
  | not t => by simp [same, same_refl t]
  | and ts => by simp [same, sameAll_refl ts]
  | or ts => by simp [same, sameAll_refl ts]
  | neg t => by simp [same, same_refl t]
  | cmp _ l r => by simp [same, same_refl l, same_refl r]
  | arith _ l r => by simp [same, same_refl l, same_refl r]

theorem sameAll_refl : ∀ ts : List Term, sameAll ts ts = true
  | [] => by simp [sameAll]
  | t :: ts => by simp [sameAll, same_refl t, sameAll_refl ts]

end

instance : DecidableEq Term := fun t u =>
  decidable_of_iff (same t u = true) ⟨eq_of_same, fun h => h ▸ same_refl t⟩

/-! ## How a term is shown -/

mutual

/-- The text of a term: connectives as applications, comparisons bare, arithmetic in
parentheses. -/
def render : Term → String
  | var x => x.name
  | const v => v.render
  | not t => "Not(" ++ render t ++ ")"
  | and ts => "And(" ++ String.intercalate ", " (renderAll ts) ++ ")"
  | or ts => "Or(" ++ String.intercalate ", " (renderAll ts) ++ ")"
  | neg t => "-" ++ render t
  | cmp op l r => render l ++ " " ++ op.symbol ++ " " ++ render r
  | arith op l r => "(" ++ render l ++ " " ++ op.symbol ++ " " ++ render r ++ ")"

/-- The texts of several terms. -/
def renderAll : List Term → List String
  | [] => []
  | t :: ts => render t :: renderAll ts

end

/-! ## Variables -/

mutual

/-- The variables of a term, one for each occurrence, from left to right. -/
def occurrences : Term → List Var
  | var x => [x]
  | const _ => []
  | not t => occurrences t
  | and ts => occurrencesAll ts
  | or ts => occurrencesAll ts
  | neg t => occurrences t
  | cmp _ l r => occurrences l ++ occurrences r
  | arith _ l r => occurrences l ++ occurrences r

/-- The occurrences of variables in several terms. -/
def occurrencesAll : List Term → List Var
  | [] => []
  | t :: ts => occurrences t ++ occurrencesAll ts

end

/-- Whether the variable with number `id` occurs in the term. -/
def mentions (t : Term) (id : Nat) : Bool :=
  t.occurrences.any fun x => x.id == id

/-- Whether the term has no variables. -/
def isGround (t : Term) : Bool :=
  t.occurrences.isEmpty

/-- Each variable of the term once, in the order of their numbers.  Of several occurrences with
one number the leftmost is listed. -/
def vars (t : Term) : List Var :=
  insertAllAscending Var.before t.occurrences []

/-! ## Substitution -/

mutual

/-- The term with `replacement` in place of the variable with number `id`. -/
def substitute (t : Term) (id : Nat) (replacement : Term) : Term :=
  match t with
  | var x => if x.id = id then replacement else var x
  | const v => const v
  | not t => not (substitute t id replacement)
  | and ts => and (substituteAll ts id replacement)
  | or ts => or (substituteAll ts id replacement)
  | neg t => neg (substitute t id replacement)
  | cmp op l r => cmp op (substitute l id replacement) (substitute r id replacement)
  | arith op l r => arith op (substitute l id replacement) (substitute r id replacement)

/-- The same replacement in several terms. -/
def substituteAll (ts : List Term) (id : Nat) (replacement : Term) : List Term :=
  match ts with
  | [] => []
  | t :: ts => substitute t id replacement :: substituteAll ts id replacement

end

end Term

end BranchWitness
