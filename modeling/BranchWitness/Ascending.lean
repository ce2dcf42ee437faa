/-!
# Ascending lists

A finite set whose elements are visited in a fixed order is kept as an ascending list.
`insertAscending` adds an element at its place; an element that ties with one already present
is not added, so the first of two tied elements is the one that stays.
-/

namespace BranchWitness

/-- Insert `x` into an ascending list, unless an element that ties with it is there. -/
def insertAscending {α : Type} (before : α → α → Bool) (x : α) : List α → List α
  | [] => [x]
  | y :: rest =>
      if before x y then x :: y :: rest
      else if before y x then y :: insertAscending before x rest
      else y :: rest

/-- Insert the elements of a list one after another, from the left. -/
def insertAllAscending {α : Type} (before : α → α → Bool) (xs : List α) (into : List α) : List α :=
  xs.foldl (fun ascending x => insertAscending before x ascending) into

end BranchWitness
