import BranchWitness.Term.Eval

/-!
# The values worth trying for one variable

The search gives the variables their values one after another.  This module says which values it
tries for the next variable, given the values of the earlier ones.

* An equation between the variable and a term that already has a value leaves that value only
  (`forced`).
* Otherwise a truth value has both values, an integer the *neighbourhood* of the constants of the
  problem and a window around zero, and a text the texts of the problem, the empty text and one
  text that occurs nowhere (`freshText`).

The domain is *complete* when the values left out behave like one that is in it.  For an integer
or a text that is known when the variable occurs only in comparisons with terms that already
have a value, its *boundaries*: an integer behaves like a boundary or one of its neighbours, and
a text that is no boundary, under equations alone, like a fresh one.
-/

namespace BranchWitness.Solver

/-! ## What faces a variable -/

/-- Whether the term is the variable numbered `id`. -/
def isVariable (id : Nat) : Term → Bool
  | .var x => x.id == id
  | _ => false

/-- The side of a comparison that faces the variable, when the other side is the variable itself
and this side does not mention it. -/
def facing (id : Nat) (left right : Term) : Option Term :=
  if isVariable id left then
    if right.mentions id then none else some right
  else if isVariable id right then
    if left.mentions id then none else some left
  else none

mutual

/-- The parts of a term that its connectives join: comparisons and, in an ill-sorted term,
arithmetic. -/
def atoms : Term → List Term
  | .not t => atoms t
  | .and ts => atomsAll ts
  | .or ts => atomsAll ts
  | .cmp op l r => [.cmp op l r]
  | .arith op l r => [.arith op l r]
  | .neg t => [.neg t]
  | .var _ => []
  | .const _ => []

/-- The atoms of several terms. -/
def atomsAll : List Term → List Term
  | [] => []
  | t :: ts => atoms t ++ atomsAll ts

end

/-- A variable with what the search looks at when it is given a value. -/
structure Slot where
  /-- The variable. -/
  target : Var
  /-- The conjuncts that mention it. -/
  conjuncts : List Term
  /-- The atoms of these conjuncts that mention it. -/
  atoms : List Term

/-- The slot of a variable among the conjuncts. -/
def Slot.of (conjuncts : List Term) (target : Var) : Slot :=
  let mentioning := conjuncts.filter fun t => t.mentions target.id
  { target
    conjuncts := mentioning
    atoms := (atomsAll mentioning).filter fun t => t.mentions target.id }

/-! ## Forced values -/

/-- What the equations among the conjuncts say about a variable. -/
inductive Forced where
  | free
  | to (v : Value)
  | toNothing
  deriving DecidableEq

/-- The value that the first usable equation gives to the variable.  An equation with an
undefined side, or with a side of another sort, leaves nothing. -/
def forced (target : Var) (assignment : Assignment) : List Term → Forced
  | [] => .free
  | .cmp .eq left right :: rest =>
      match facing target.id left right with
      | none => forced target assignment rest
      | some other =>
          match other.eval assignment with
          | .unknown => forced target assignment rest
          | .undefined => .toNothing
          | .known v => if v.sort = target.sort then .to v else .toNothing
  | _ :: rest => forced target assignment rest

/-! ## Boundaries -/

/-- The value an atom compares the variable with.  There is none when the atom has another shape,
when the facing term has no value yet, or when it asks for the order of a text. -/
def boundary (target : Var) (assignment : Assignment) : Term → Option Value
  | .cmp op left right =>
      if target.sort = .str ∧ op.isOrdering then none
      else
        match facing target.id left right with
        | none => none
        | some other =>
            match other.eval assignment with
            | .known v => some v
            | _ => none
  | _ => none

/-- The values that the variable is compared with, when all its atoms are such comparisons. -/
def boundaries (slot : Slot) (assignment : Assignment) : Option (List Value) :=
  slot.atoms.mapM (boundary slot.target assignment)

/-! ## The constants of a problem -/

/-- The value of a term without variables, if it has one. -/
def constantOf (t : Term) : List Value :=
  match t.eval .empty with
  | .known v => [v]
  | _ => []

mutual

/-- The values of the largest parts of a term that have no variables. -/
def constants : Term → List Value
  | .var _ => []
  | .const v => [v]
  | .not t => if t.isGround then constantOf (.not t) else constants t
  | .neg t => if t.isGround then constantOf (.neg t) else constants t
  | .and ts => if (Term.and ts).isGround then constantOf (.and ts) else constantsAll ts
  | .or ts => if (Term.or ts).isGround then constantOf (.or ts) else constantsAll ts
  | .cmp op l r =>
      if (Term.cmp op l r).isGround then constantOf (.cmp op l r) else constants l ++ constants r
  | .arith op l r =>
      if (Term.arith op l r).isGround then constantOf (.arith op l r)
      else constants l ++ constants r

/-- The constants of several terms. -/
def constantsAll : List Term → List Value
  | [] => []
  | t :: ts => constants t ++ constantsAll ts

end

/-- The integers among the values. -/
def intsOf (values : List Value) : List Int64 :=
  values.filterMap fun
    | .int n => some n
    | _ => none

/-- The texts among the values. -/
def textsOf (values : List Value) : List String :=
  values.filterMap fun
    | .str s => some s
    | _ => none

/-! ## Integers, nearest to zero first -/

/-- Integers are tried by distance from zero, the negative one first of two at one distance. -/
def nearerZero (a b : Int64) : Bool :=
  a.toInt.natAbs < b.toInt.natAbs || (a.toInt.natAbs == b.toInt.natAbs && a.toInt < b.toInt)

/-- The integers at distance at most `width` from zero, in the order of `nearerZero`. -/
def window (width : Nat) : List Int64 :=
  0 :: (List.range width).flatMap fun (k : Nat) =>
    [Int64.ofInt (-((k : Int) + 1)), Int64.ofInt ((k : Int) + 1)]

/-- An integer with the integers next to it, as far as they exist. -/
def neighbours (n : Int64) : List Int64 :=
  [n.toInt, n.toInt - 1, n.toInt + 1].filterMap checked

/-- Add integers and their neighbours to the integers to try. -/
def withNeighbours (ints : List Int64) (known : List Int64) : List Int64 :=
  insertAllAscending nearerZero (ints.flatMap neighbours) known

/-! ## Texts -/

/-- Texts are tried in the order of their code points. -/
def earlierText (a b : String) : Bool :=
  decide (a < b)

/-- Add texts to the texts to try. -/
def withTexts (texts : List String) (known : List String) : List String :=
  insertAllAscending earlierText texts known

/-- A text that is not among the known ones: the first of `s0`, `s1`, … that is new.  Some text
up to the number of known texts is. -/
def freshText (known : List String) : String :=
  (((List.range (known.length + 1)).map fun n => s!"s{n}").find? fun s => s ∉ known).getD ""

/-! ## The domain of a variable -/

/-- What the domains of all variables of a problem have in common. -/
structure Seeds where
  /-- The window around zero and the neighbourhood of the integer constants. -/
  ints : List Int64
  /-- The text constants and the empty text. -/
  texts : List String

/-- The seeds of a list of conjuncts. -/
def Seeds.of (width : Nat) (conjuncts : List Term) : Seeds :=
  let values := constantsAll conjuncts
  { ints := withNeighbours (intsOf values) (window width)
    texts := withTexts (textsOf values) [""] }

/-- The values to try for a variable. -/
structure Domain where
  /-- The values, in the order of trying. -/
  values : List Value
  /-- Whether every value behaves like one of these. -/
  complete : Bool

/-- The integers to try for a variable. -/
def intDomain (seeds : Seeds) (slot : Slot) (assignment : Assignment) : Domain :=
  match boundaries slot assignment with
  | none => ⟨seeds.ints.map .int, false⟩
  | some values => ⟨(withNeighbours (values.filterMap Value.toInt?) seeds.ints).map .int, true⟩

/-- The texts to try for a variable: the known ones and then a fresh one. -/
def textDomain (seeds : Seeds) (slot : Slot) (assignment : Assignment) : Domain :=
  match boundaries slot assignment with
  | none => ⟨(seeds.texts ++ [freshText seeds.texts]).map .str, false⟩
  | some values =>
      let known := withTexts (textsOf values) seeds.texts
      ⟨(known ++ [freshText known]).map .str, true⟩

/-- The values to try for the variable of the slot, given the values of the earlier variables. -/
def domain (seeds : Seeds) (slot : Slot) (assignment : Assignment) : Domain :=
  match forced slot.target assignment slot.conjuncts with
  | .to v => ⟨[v], true⟩
  | .toNothing => ⟨[], false⟩
  | .free =>
      match slot.target.sort with
      | .bool => ⟨[.bool true, .bool false], true⟩
      | .int => intDomain seeds slot assignment
      | .str => textDomain seeds slot assignment

end BranchWitness.Solver
