import BranchWitness.Operator

/-!
# The constraints of a path

The store holds what is known on the current path: for each variable that was given a value, the
equation with that value, in the order of the first assignments; and the tests of the branches
taken, in the order of taking them.

An assignment captures the current values of the variables it mentions, so that later
assignments do not change what it says (`Store.current`).  Tests taken earlier keep speaking
about the value they saw: when a variable is given a new value, its previous one takes its place
in them.  Both are done by `Store.assign`.
-/

namespace BranchWitness

/-- The equation of a variable with its value. -/
structure Binding where
  /-- The variable. -/
  target : Var
  /-- Its value. -/
  value : Term
  deriving DecidableEq

namespace Binding

/-- The equation as a term. -/
def term (binding : Binding) : Term :=
  .equals (.var binding.target) binding.value

/-- How the equation is shown. -/
def render (binding : Binding) : String :=
  binding.target.name ++ " == " ++ binding.value.render

end Binding

/-- The constraints of a path. -/
structure Store where
  /-- The values of variables, by name, in the order of the first assignments. -/
  named : List (String × Binding) := []
  /-- The tests of the branches taken, in order. -/
  branch : List Term := []
  /-- The greatest number of tests, if there is one. -/
  capacity : Option Nat := none
  deriving DecidableEq

namespace Store

/-- Put a binding under a name into a list of bindings: in place of the one that is there, or at
the end. -/
def putBinding (name : String) (binding : Binding) :
    List (String × Binding) → List (String × Binding)
  | [] => [(name, binding)]
  | entry :: rest =>
      if entry.1 = name then (name, binding) :: rest else entry :: putBinding name binding rest

/-- Set the binding of a name. -/
def bind (store : Store) (name : String) (binding : Binding) : Store :=
  { store with named := putBinding name binding store.named }

/-- The binding of a name. -/
def binding? (store : Store) (name : String) : Option Binding :=
  store.named.lookup name

/-- Add a test at the end, unless the store is full; give its position too. -/
def push (store : Store) (test : Term) : Except Error (Nat × Store) :=
  match store.capacity with
  | some limit =>
      if limit ≤ store.branch.length then .error (.capacityExceeded limit)
      else .ok (store.branch.length, { store with branch := store.branch ++ [test] })
  | none => .ok (store.branch.length, { store with branch := store.branch ++ [test] })

/-- Replace a variable in the tests that mention it. -/
def substituteInTests (store : Store) (id : Nat) (replacement : Term) : Store :=
  { store with
    branch := store.branch.map fun test =>
      if test.mentions id then test.substitute id replacement else test }

/-- The number of constraints. -/
def size (store : Store) : Nat :=
  store.named.length + store.branch.length

/-- Whether there are no constraints. -/
def isEmpty (store : Store) : Bool :=
  store.named.isEmpty && store.branch.isEmpty

/-- The constraints as assertions: the equations and then the tests. -/
def assertions (store : Store) : List Term :=
  (store.named.map fun entry => entry.2.term) ++ store.branch

/-- The constraints as they are shown, in the order of the assertions. -/
def rendered (store : Store) : List String :=
  (store.named.map fun entry => entry.2.render) ++ store.branch.map Term.render

/-- The whole store as it is shown. -/
def render (store : Store) : String :=
  String.intercalate ", " store.rendered

/-! ## Assignment -/

/-- The term with the current values of its variables in their place.  A variable without a
binding stands for itself. -/
def current (store : Store) (t : Term) : Term :=
  t.vars.foldl
    (fun t x =>
      match store.binding? x.name with
      | some binding => t.substitute x.id binding.value
      | none => t)
    t

/-- Give the variable the current value of a term of its sort.  A variable without a value cannot
be given one that mentions it. -/
def assign (store : Store) (target : Var) (value : Term) : Except Error Store :=
  match (Operator.cmp .eq).build [.var target, value] with
  | .error error => .error error
  | .ok _ =>
      let captured := store.current value
      if captured.mentions target.id then
        .error ((Refusal.selfReference target.name).error "Eq")
      else
        let settled :=
          match store.binding? target.name with
          | some previous => store.substituteInTests target.id previous.value
          | none => store
        .ok (settled.bind target.name ⟨target, captured⟩)

end Store

end BranchWitness
