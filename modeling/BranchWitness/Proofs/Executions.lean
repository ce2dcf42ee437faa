import BranchWitness.Proofs.Statements

/-!
# Statements and their executions

An execution is of a statement in a state, with an outcome (`Execution`).  Statements are told apart
by their position in the list of all statements (`Stmt.nodes`), because two of them may be equal or
on one line.  What a statement changes by itself, without the branches that are explored in it, is
told here too (`Exploration.exists_perform_eq`).
-/

namespace BranchWitness

/-! ## Statements and their positions -/

mutual

/-- The statements inside a statement, each before those inside it. -/
def Stmt.parts : Stmt → List Stmt
  | .conditional _ _ body orelse => Stmt.nodes body ++ Stmt.nodes orelse
  | .loop _ _ body => Stmt.nodes body
  | .declaration _ _ _ _ => []
  | .reassignment _ _ _ => []
  | .other _ _ => []

/-- The statements and those inside them, each before those inside it. -/
def Stmt.nodes : List Stmt → List Stmt
  | [] => []
  | stmt :: rest => stmt :: (Stmt.parts stmt ++ Stmt.nodes rest)

end

/-- Whether the statement has branches to explore. -/
def Stmt.branches : Stmt → Bool
  | .conditional _ _ _ _ | .loop _ _ _ => true
  | _ => false

/-- The execution of a statement. -/
structure Execution where
  /-- The position of the statement. -/
  position : Nat
  /-- The statement. -/
  stmt : Stmt
  /-- The state in which it is executed. -/
  before : Exploration
  /-- Why it failed, if it did. -/
  failure : Option Error

/-- The statement of an execution with its position. -/
def Execution.node (execution : Execution) : Stmt × Nat :=
  (execution.stmt, execution.position)

namespace Exploration

variable {solver : Backend} {tracing : Bool} {state : Exploration}

/-! ## Statements by themselves -/

theorem exists_bind_eq {bound : Exploration} {name type : String} {x : Var}
    (h : state.bind name type = .ok (x, bound)) :
    ∃ bindings nextId, bound = { state with bindings, nextId } := by
  obtain rfl | ⟨-, sort, rfl⟩ := eq_of_bind h
  · exact ⟨_, _, rfl⟩
  · exact ⟨_, _, rfl⟩

/-- A statement that fails or has no branches changes the variables, the store, the trace and the
counts of conditionals and loops at most. -/
theorem exists_perform_eq {stmt : Stmt}
    (h : stmt.branches = true → (perform solver tracing stmt state).2.isSome = true) :
    ∃ bindings nextId store trace conditionals loops,
      (perform solver tracing stmt state).1 = { state with
        bindings, nextId, store, trace
        stats := { state.stats with conditionals, loops } } := by
  cases stmt with
  | declaration _ target annotation value =>
      rw [perform, declare]
      split
      · exact ⟨_, _, _, _, _, _, rfl⟩
      · split
        · exact ⟨_, _, _, _, _, _, rfl⟩
        · rename_i x bound hbind
          obtain ⟨bindings, nextId, rfl⟩ := exists_bind_eq hbind
          split
          · exact ⟨_, _, _, _, _, _, rfl⟩
          · split <;> exact ⟨_, _, _, _, _, _, rfl⟩
  | reassignment _ targets value =>
      rw [perform, reassign]
      split
      · exact ⟨_, _, _, _, _, _, rfl⟩
      · split <;> exact ⟨_, _, _, _, _, _, rfl⟩
  | conditional line condition body orelse =>
      obtain ⟨error, -, heq⟩ | ⟨test, -, -, heq⟩ | ⟨test, -, -, heq⟩ :=
        perform_conditional solver tracing line condition body orelse state
      · rw [heq]
        exact ⟨_, _, _, _, _, _, rfl⟩
      · rw [heq]
        cases tracing <;> exact ⟨_, _, _, _, _, _, rfl⟩
      · have hfails := h rfl
        rw [heq] at hfails
        cases hfails
  | loop line condition body =>
      obtain ⟨error, -, heq⟩ | ⟨test, -, -, heq⟩ | ⟨test, -, -, heq⟩ :=
        perform_loop solver tracing line condition body state
      · rw [heq]
        exact ⟨_, _, _, _, _, _, rfl⟩
      · rw [heq]
        exact ⟨_, _, _, _, _, _, rfl⟩
      · have hfails := h rfl
        rw [heq] at hfails
        cases hfails
  | other => exact ⟨_, _, _, _, _, _, rfl⟩

end Exploration

end BranchWitness
