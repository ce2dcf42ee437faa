import BranchWitness.Proofs.Statements

/-!
# Failures that do not end the analysis

Resolving an expression, binding a name, assigning a value and taking a test can fail, but never
fatally.  So what a statement fails with is always reported (`Exploration.perform_not_fatal`,
`Diagnostic.exists_of_not_fatal`).
-/

namespace BranchWitness

/-- The result is no fatal failure. -/
def Recoverable {α : Type} (result : Except Error α) : Prop :=
  ∀ error, result = .error error → error.isFatal = false

namespace Recoverable

variable {α β : Type}

theorem ok (a : α) : Recoverable (.ok a) := by
  intro error h
  cases h

theorem error {error : Error} (h : error.isFatal = false) :
    Recoverable (.error error : Except Error α) := by
  intro other hother
  cases hother
  exact h

theorem bind {result : Except Error α} {next : α → Except Error β} (h : Recoverable result)
    (hnext : ∀ a, Recoverable (next a)) : Recoverable (result >>= next) := by
  cases result with
  | error error => exact .error (h error rfl)
  | ok a => exact hnext a

theorem map {result : Except Error α} (h : Recoverable result) (f : α → β) :
    Recoverable (result.map f) := by
  cases result with
  | error error => exact .error (h error rfl)
  | ok a => exact .ok (f a)

theorem mapM {f : α → Except Error β} (h : ∀ a, Recoverable (f a)) (as : List α) :
    Recoverable (as.mapM f) := by
  induction as with
  | nil => exact .ok []
  | cons a rest ih =>
      rw [List.mapM_cons]
      exact (h a).bind fun _ => ih.bind fun _ => .ok _

end Recoverable

/-! ## Operators and expressions -/

namespace Operator

theorem recoverable_ofTag (tag : String) : Recoverable (ofTag tag) := by
  unfold ofTag
  split
  · exact .ok _
  · exact .error rfl

theorem recoverable_build (operator : Operator) (operands : List Term) :
    Recoverable (operator.build operands) := by
  unfold build
  split
  · exact .ok _
  · exact .error rfl

theorem recoverable_apply (operator : Operator) (operands : List Term) :
    Recoverable (operator.apply operands) := by
  have hbuild := recoverable_build operator operands
  unfold apply
  split
  · exact .ok _
  · rename_i error herror
    split
    · exact .ok _
    · exact .error (hbuild error herror)

theorem recoverable_applyLogical (operator : Operator) (operands : List Term) :
    Recoverable (operator.applyLogical operands) := by
  have happly := recoverable_apply operator operands
  unfold applyLogical
  split
  · exact .ok _
  · rename_i error herror
    have hfirst : error.isFatal = false := happly error herror
    split
    · split
      · exact .ok _
      · exact .error hfirst
    · exact .error hfirst

end Operator

namespace Expr

open Operator

/-- An operand that is no connective is resolved by itself. -/
theorem recoverable_spliced_single {bindings : Bindings} {tag : String} {e : Expr}
    {rest : List Expr} (hsingle : ∀ op operands, e ≠ .connective op operands)
    (he : Recoverable (e.resolve bindings))
    (hrest : Recoverable (resolveSpliced bindings tag rest)) :
    Recoverable (resolveSpliced bindings tag (e :: rest)) := by
  rw [resolveSpliced]
  · exact he.bind fun t => hrest.bind fun ts => .ok _
  · exact hsingle

mutual

theorem recoverable_resolve (bindings : Bindings) : ∀ e : Expr, Recoverable (e.resolve bindings)
  | .identifier name => by
      rw [resolve]
      split
      · exact .ok _
      · exact .error rfl
  | .literal value => by
      rw [resolve]
      exact .ok _
  | .unary op operand => by
      rw [resolve]
      exact (recoverable_ofTag op).bind fun operator =>
        (recoverable_resolve bindings operand).bind fun t => recoverable_applyLogical operator [t]
  | .connective op operands => by
      rw [resolve]
      exact (recoverable_ofTag op).bind fun operator =>
        (recoverable_resolveSpliced bindings op operands).bind fun ts =>
          recoverable_applyLogical operator ts
  | .comparison left ops comparators => by
      rw [resolve]
      split
      · exact .error rfl
      · refine (recoverable_resolve bindings left).bind fun first => ?_
        refine (recoverable_resolveChain bindings first ops comparators).bind fun ts => ?_
        split <;> exact .ok _
  | .arithmetic op left right => by
      rw [resolve]
      exact (recoverable_ofTag op).bind fun operator =>
        (recoverable_resolve bindings left).bind fun l =>
          (recoverable_resolve bindings right).bind fun r => recoverable_apply operator [l, r]

theorem recoverable_resolveSpliced (bindings : Bindings) (tag : String) :
    ∀ operands : List Expr, Recoverable (resolveSpliced bindings tag operands)
  | [] => by
      rw [resolveSpliced]
      exact .ok _
  | .connective op operands :: rest => by
      rw [resolveSpliced]
      have hrest := recoverable_resolveSpliced bindings tag rest
      split
      · exact (recoverable_resolveSpliced bindings tag operands).bind fun _ =>
          hrest.bind fun _ => .ok _
      · exact ((recoverable_resolve bindings (.connective op operands)).map _).bind fun _ =>
          hrest.bind fun _ => .ok _
  | .identifier name :: rest =>
      recoverable_spliced_single (by simp) (recoverable_resolve bindings (.identifier name))
        (recoverable_resolveSpliced bindings tag rest)
  | .literal value :: rest =>
      recoverable_spliced_single (by simp) (recoverable_resolve bindings (.literal value))
        (recoverable_resolveSpliced bindings tag rest)
  | .unary op operand :: rest =>
      recoverable_spliced_single (by simp) (recoverable_resolve bindings (.unary op operand))
        (recoverable_resolveSpliced bindings tag rest)
  | .comparison left ops es :: rest =>
      recoverable_spliced_single (by simp) (recoverable_resolve bindings (.comparison left ops es))
        (recoverable_resolveSpliced bindings tag rest)
  | .arithmetic op left right :: rest =>
      recoverable_spliced_single (by simp)
        (recoverable_resolve bindings (.arithmetic op left right))
        (recoverable_resolveSpliced bindings tag rest)

theorem recoverable_resolveChain (bindings : Bindings) :
    ∀ (left : Term) (ops : List String) (comparators : List Expr),
      Recoverable (resolveChain bindings left ops comparators)
  | left, ops, [] => by
      rw [resolveChain]
      · exact .ok []
      · simp
  | left, [], e :: rest => by
      rw [resolveChain]
      · exact .ok []
      · simp
  | left, op :: ops, e :: rest => by
      rw [resolveChain]
      refine (recoverable_ofTag op).bind fun operator => ?_
      refine (recoverable_resolve bindings e).bind fun right => ?_
      refine (recoverable_apply operator [left, right]).bind fun t => ?_
      exact (recoverable_resolveChain bindings right ops rest).bind fun _ => .ok _

end

theorem recoverable_constraint (bindings : Bindings) (test : Expr) :
    Recoverable (test.constraint bindings) :=
  (recoverable_resolve bindings test).map Term.truthy

end Expr

/-! ## Stores and states -/

theorem ValueSort.recoverable_ofTag (tag : String) : Recoverable (ofTag tag) := by
  unfold ofTag
  split
  · exact .ok _
  · exact .error rfl

namespace Store

theorem recoverable_push (store : Store) (test : Term) : Recoverable (store.push test) := by
  unfold push
  split
  · split
    · exact .error rfl
    · exact .ok _
  · exact .ok _

theorem recoverable_assign (store : Store) (target : Var) (value : Term) :
    Recoverable (store.assign target value) := by
  have hbuild := Operator.recoverable_build (.cmp .eq) [.var target, value]
  unfold assign
  split
  · rename_i error herror
    exact .error (hbuild error herror)
  · dsimp only
    split
    · exact .error rfl
    · exact .ok _

end Store

namespace Exploration

theorem recoverable_bind (state : Exploration) (name type : String) :
    Recoverable (state.bind name type) := by
  have hsort := ValueSort.recoverable_ofTag type
  unfold bind
  split
  · rename_i error herror
    exact .error (hsort error herror)
  · split
    · split
      · exact .ok _
      · exact .error rfl
    · exact .ok _

theorem recoverable_lookup (state : Exploration) (name : String) :
    Recoverable (state.lookup name) := by
  unfold lookup
  split
  · exact .ok _
  · exact .error rfl

theorem assignEach_not_fatal {value : Term} {handles : List Var} {store : Store} {error : Error}
    (h : (assignEach value handles store).2 = some error) : error.isFatal = false := by
  induction handles generalizing store with
  | nil => cases h
  | cons x rest ih =>
      rw [assignEach] at h
      split at h
      · rename_i refused hassign
        cases h
        exact store.recoverable_assign x value _ hassign
      · exact ih h

theorem declare_not_fatal {state : Exploration} {target annotation : String} {value : Option Expr}
    {error : Error} (h : (state.declare target annotation value).2 = some error) :
    error.isFatal = false := by
  have hvalue : Recoverable (value.mapM (Expr.resolve state.bindings)) := by
    cases value with
    | none => exact .ok none
    | some e =>
        rw [Option.mapM_some]
        exact (Expr.recoverable_resolve state.bindings e).map some
  unfold declare at h
  split at h
  · rename_i refused hresolve
    cases h
    exact hvalue _ hresolve
  · split at h
    · rename_i refused hbind
      cases h
      exact state.recoverable_bind target annotation _ hbind
    · rename_i x bound hbind
      split at h
      · cases h
      · split at h
        · rename_i refused hassign
          cases h
          exact bound.store.recoverable_assign x _ _ hassign
        · cases h

theorem reassign_not_fatal {state : Exploration} {targets : List String} {value : Expr}
    {error : Error} (h : (state.reassign targets value).2 = some error) :
    error.isFatal = false := by
  unfold reassign at h
  split at h
  · rename_i refused hlookup
    cases h
    exact Recoverable.mapM state.recoverable_lookup targets _ hlookup
  · split at h
    · rename_i refused hresolve
      cases h
      exact Expr.recoverable_resolve state.bindings value _ hresolve
    · exact assignEach_not_fatal h

/-- No statement fails fatally. -/
theorem perform_not_fatal {solver : Backend} {tracing : Bool} {stmt : Stmt} {state : Exploration}
    {error : Error} (h : (perform solver tracing stmt state).2 = some error) :
    error.isFatal = false := by
  cases stmt with
  | declaration line target annotation value => exact declare_not_fatal h
  | reassignment line targets value => exact reassign_not_fatal h
  | conditional line condition body orelse =>
      obtain ⟨refused, htest, heq⟩ | ⟨test, -, -, heq⟩ | ⟨test, -, -, heq⟩ :=
        perform_conditional solver tracing line condition body orelse state
      · rw [heq] at h
        cases h
        exact Expr.recoverable_constraint state.bindings condition _ htest
      · rw [heq] at h
        cases h
        rfl
      · rw [heq] at h
        cases h
  | loop line condition body =>
      obtain ⟨refused, htest, heq⟩ | ⟨test, -, -, heq⟩ | ⟨test, -, -, heq⟩ :=
        perform_loop solver tracing line condition body state
      · rw [heq] at h
        cases h
        exact Expr.recoverable_constraint state.bindings condition _ htest
      · rw [heq] at h
        cases h
        rfl
      · rw [heq] at h
        cases h
  | other line label => cases h

end Exploration

/-! ## What is reported -/

theorem Diagnostic.exists_of_not_fatal (line : Line) {error : Error} (h : error.isFatal = false) :
    ∃ kind, Diagnostic.ofError? line error = some ⟨line, kind, error.message⟩ := by
  cases error with
  | parseFailure => cases h
  | solverUnavailable => cases h
  | _ => exact ⟨_, rfl⟩

end BranchWitness
