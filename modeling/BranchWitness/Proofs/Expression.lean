import BranchWitness.Proofs.Ascending
import BranchWitness.Proofs.Sorting

/-!
# The value of an expression

An expression has a value of its own, read off a memory without resolving anything: names stand
for the contents of their variables, the logical operators work on what values count as, a chain of
comparisons is the conjunction of its links, and an operation without a result has no value
(`Expr.value`).  A connective is decided by one deciding operand whatever the others are
(`decideAll`).

Resolution keeps this value (`Resolves.meaning`): the term that an expression stands for means, in
an environment that shows the memory (`Memory.Shown`), what the expression is worth in the memory.
Folding of constants, truthiness and the splicing of nested connectives all disappear behind that
statement.  Evaluation under an assignment is one case of it (`Expr.eval_of_resolve`).
-/

namespace BranchWitness

/-! ## Connectives with missing operands -/

/-- A connective over truth values some of which may be missing, where `deciding` is the truth
value that settles the connective by itself. -/
def decideAll (deciding : Bool) (operands : List (Option Bool)) : Option Bool :=
  if some deciding ∈ operands then some deciding
  else if none ∈ operands then none
  else some (!deciding)

theorem decideAll_singleton (deciding : Bool) (operand : Option Bool) :
    decideAll deciding [operand] = operand := by
  rcases operand with _ | _ | _ <;> cases deciding <;> rfl

/-- The operands of a connective can be settled in groups. -/
theorem decideAll_append (deciding : Bool) (first second : List (Option Bool)) :
    decideAll deciding (first ++ second) =
      decideAll deciding [decideAll deciding first, decideAll deciding second] := by
  by_cases hfirst : some deciding ∈ first
  · simp [decideAll, hfirst]
  by_cases hsecond : some deciding ∈ second
  · simp [decideAll, hsecond]
  by_cases hfirst' : none ∈ first <;> by_cases hsecond' : none ∈ second <;>
    simp [decideAll, hfirst, hsecond, hfirst', hsecond']

theorem decideAll_cons (deciding : Bool) (operand : Option Bool) (rest : List (Option Bool)) :
    decideAll deciding (operand :: rest) =
      decideAll deciding [operand, decideAll deciding rest] := by
  have happend := decideAll_append deciding [operand] rest
  rwa [decideAll_singleton] at happend

namespace Meaning

/-- The meaning of a value that may be missing. -/
def ofOption : Option Value → Meaning
  | some v => .known v
  | none => .undefined

/-- The meaning of a truth value that may be missing. -/
def ofTruth (truth : Option Bool) : Meaning :=
  .ofOption (truth.map .bool)

theorem truth_ofOption (value : Option Value) :
    (ofOption value).truth = ofTruth (value.map Value.truth) := by
  cases value <;> rfl

theorem ofTruth_eq_known_iff {truth : Option Bool} {b : Bool} :
    ofTruth truth = .known (.bool b) ↔ truth = some b := by
  cases truth <;> simp [ofTruth, ofOption]

theorem not_ofTruth (truth : Option Bool) : (ofTruth truth).not = ofTruth (truth.map (!·)) := by
  cases truth <;> rfl

theorem lift_ofOption (operation : Value → Except ValueError Value) (value : Option Value) :
    (ofOption value).lift (fun v => .ofResult (operation v)) =
      ofOption (value.bind fun v => (operation v).toOption) := by
  cases value with
  | none => rfl
  | some v =>
      simp only [ofOption, lift, Option.bind_some]
      cases operation v <;> rfl

theorem lift₂_ofOption (operation : Value → Value → Except ValueError Value)
    (left right : Option Value) :
    (ofOption left).lift₂ (fun v w => .ofResult (operation v w)) (ofOption right) =
      ofOption (left.bind fun v => right.bind fun w => (operation v w).toOption) := by
  cases left with
  | none => cases right <;> rfl
  | some v =>
      cases right with
      | none => rfl
      | some w =>
          simp only [ofOption, lift₂, Option.bind_some]
          cases operation v w <;> rfl

theorem join_ofTruth (deciding : Bool) (operand rest : Option Bool) :
    (ofTruth operand).join deciding (ofTruth rest) =
      ofTruth (decideAll deciding [operand, rest]) := by
  rcases operand with _ | _ | _ <;> rcases rest with _ | _ | _ <;> cases deciding <;> rfl

/-- The meaning of a connective over operands that are true, false or undefined. -/
theorem joinAll_ofTruth (deciding : Bool) (operands : List (Option Bool)) :
    joinAll deciding (operands.map ofTruth) = ofTruth (decideAll deciding operands) := by
  induction operands with
  | nil => rfl
  | cons operand rest ih =>
      rw [decideAll_cons, ← join_ofTruth, ← ih]
      rfl

end Meaning

/-! ## Values of expressions -/

/-- The contents of variables by name.  A variable without contents is undefined. -/
abbrev Memory := String → Option Value

namespace Expr

mutual

/-- The value of an expression. -/
def value (memory : Memory) : Expr → Option Value
  | identifier name => memory name
  | literal v => some v
  | unary op operand =>
      match Operator.tags.lookup op with
      | some .not => ((value memory operand).map Value.truth).map fun b => .bool (!b)
      | some .negate => (value memory operand).bind fun v => v.negate.toOption
      | _ => none
  | connective op operands =>
      match Operator.tags.lookup op with
      | some .and => (decideAll false (truths memory operands)).map .bool
      | some .or => (decideAll true (truths memory operands)).map .bool
      | _ => none
  | comparison left ops comparators =>
      (decideAll false (links memory (value memory left) ops comparators)).map .bool
  | arithmetic op left right =>
      match Operator.tags.lookup op with
      | some (.arith op) =>
          (value memory left).bind fun v =>
            (value memory right).bind fun w => (op.apply v w).toOption
      | _ => none

/-- What the values of several expressions count as. -/
def truths (memory : Memory) : List Expr → List (Option Bool)
  | [] => []
  | e :: es => (value memory e).map Value.truth :: truths memory es

/-- The comparisons of a chain that starts with a given value. -/
def links (memory : Memory) (left : Option Value) : List String → List Expr → List (Option Bool)
  | op :: ops, e :: es =>
      (match Operator.tags.lookup op with
        | some (.cmp op) =>
            left.bind fun v => (value memory e).bind fun w => (op.apply v w).toOption
        | _ => none) :: links memory (value memory e) ops es
  | _, _ => []

end

/-- What the value of an expression counts as. -/
def truth (memory : Memory) (e : Expr) : Option Bool :=
  (e.value memory).map Value.truth

end Expr

namespace Memory

/-- The environment of a memory. -/
def environment (memory : Memory) : Environment := fun x => .ofOption (memory x.name)

/-- The contents of bound variables are of their sorts. -/
def Sorted (bindings : Bindings) (memory : Memory) : Prop :=
  ∀ name x v, bindings.find? name = some x → memory name = some v → v.sort = x.sort

theorem Sorted.environment {bindings : Bindings} {memory : Memory} (h : memory.Sorted bindings)
    {t : Term} (ht : t.Over bindings.Binds) :
    ∀ x ∈ t.occurrences, ∀ v, memory.environment x = .known v → v.sort = x.sort := by
  intro x hx v hv
  cases hmemory : memory x.name with
  | none => simp [Memory.environment, hmemory, Meaning.ofOption] at hv
  | some w =>
      simp only [Memory.environment, hmemory, Meaning.ofOption, Meaning.known.injEq] at hv
      exact h x.name x v (ht x hx) (by rw [hmemory, hv])

/-- The environment has, at the bound variables, what the memory has under their names, and the
contents are of the sorts of the variables. -/
structure Shown (memory : Memory) (bindings : Bindings) (env : Environment) : Prop where
  sorted : memory.Sorted bindings
  contents : ∀ name x, bindings.find? name = some x → env x = .ofOption (memory name)

theorem Sorted.shown {bindings : Bindings} {memory : Memory} (h : memory.Sorted bindings)
    (hkeyed : bindings.Keyed) : memory.Shown bindings memory.environment where
  sorted := h
  contents name x hfind := by rw [Memory.environment, hkeyed name x hfind]

theorem Shown.sort_eq {bindings : Bindings} {memory : Memory} {env : Environment}
    (h : memory.Shown bindings env) {t : Term} (ht : t.Over bindings.Contains) :
    ∀ x ∈ t.occurrences, ∀ v, env x = .known v → v.sort = x.sort := by
  intro x hx v hv
  obtain ⟨name, hfind⟩ := ht x hx
  rw [h.contents name x hfind] at hv
  cases hmemory : memory name with
  | none => simp [hmemory, Meaning.ofOption] at hv
  | some w =>
      simp only [hmemory, Meaning.ofOption, Meaning.known.injEq] at hv
      exact h.sorted name x v hfind (by rw [hmemory, hv])

end Memory

/-! ## Meanings of applied operators -/

namespace Operator

/-- A logical operator is applied to the truthiness of its operands. -/
theorem makes_truthy_of_applyLogical {operator : Operator} {operands : List Term} {t : Term}
    (hlogical : operator.fold? = none) (h : operator.applyLogical operands = .ok t) :
    Makes operator (operands.map Term.truthy) t := by
  rcases apply_or_makes_truthy_of_applyLogical h with happly | hmakes
  · rcases makes_or_folds_of_apply happly with hmakes | ⟨operation, _, _, hfold, -⟩
    · -- operands that are not refused are truth values, which are their own truthiness
      have hsorts : ∀ u ∈ operands, u.sort = .bool := by
        cases hmakes with
        | and hsorts => exact hsorts
        | or hsorts => exact hsorts
        | not hsort => simpa using hsort
        | _ => simp [fold?] at hlogical
      have hsame : operands.map Term.truthy = operands.map id :=
        List.map_congr_left fun u hu => Term.truthy_of_bool (hsorts u hu)
      rwa [hsame, List.map_id]
    · rw [hlogical] at hfold
      cases hfold
  · exact hmakes

theorem meaning_of_apply_negate {u t : Term} (h : Operator.negate.apply [u] = .ok t)
    (env : Environment) : t.meaning env = (u.meaning env).lift fun v => .ofResult v.negate := by
  rcases makes_or_folds_of_apply h with hmakes | ⟨operation, values, v, hfold, hvalues, hv, rfl⟩
  · cases hmakes
    rw [Term.meaning]
  · simp only [fold?, Option.some.injEq] at hfold
    subst hfold
    obtain ⟨a, rfl, rfl⟩ := List.map_eq_singleton_iff.mp hvalues.symm
    have hresult : a.negate = .ok v := hv
    simp only [Term.meaning, Meaning.lift, hresult, Meaning.ofResult]

theorem meaning_of_apply_cmp {op : CmpOp} {l r t : Term}
    (h : (Operator.cmp op).apply [l, r] = .ok t) (env : Environment) :
    t.meaning env =
      (l.meaning env).lift₂ (fun a b => .ofResult ((op.apply a b).map .bool)) (r.meaning env) := by
  rcases makes_or_folds_of_apply h with hmakes | ⟨operation, values, v, hfold, hvalues, hv, rfl⟩
  · cases hmakes
    rw [Term.meaning]
  · simp only [fold?, Option.some.injEq] at hfold
    subst hfold
    obtain ⟨a, b, rfl, rfl, rfl⟩ := exists_pair_of_map_const hvalues
    have hresult : (op.apply a b).map .bool = .ok v := hv
    simp only [Term.meaning, Meaning.lift₂, hresult, Meaning.ofResult]

theorem meaning_of_apply_arith {op : ArithOp} {l r t : Term}
    (h : (Operator.arith op).apply [l, r] = .ok t) (env : Environment) :
    t.meaning env =
      (l.meaning env).lift₂ (fun a b => .ofResult (op.apply a b)) (r.meaning env) := by
  rcases makes_or_folds_of_apply h with hmakes | ⟨operation, values, v, hfold, hvalues, hv, rfl⟩
  · cases hmakes
    rw [Term.meaning]
  · simp only [fold?, Option.some.injEq] at hfold
    subst hfold
    obtain ⟨a, b, rfl, rfl, rfl⟩ := exists_pair_of_map_const hvalues
    have hresult : op.apply a b = .ok v := hv
    simp only [Term.meaning, Meaning.lift₂, hresult, Meaning.ofResult]

end Operator

/-! ## Resolution keeps values -/

namespace Expr

variable {bindings : Bindings} {memory : Memory} {env : Environment}

/-- The value of a link of a chain, seen through the meaning of its comparison. -/
theorem meaning_link {op : CmpOp} {l r t : Term} (h : (Operator.cmp op).apply [l, r] = .ok t)
    {left right : Option Value} (hleft : l.meaning env = .ofOption left)
    (hright : r.meaning env = .ofOption right) :
    t.meaning env =
      .ofTruth (left.bind fun v => right.bind fun w => (op.apply v w).toOption) := by
  rw [Operator.meaning_of_apply_cmp h, hleft, hright,
    Meaning.lift₂_ofOption fun v w => (op.apply v w).map .bool]
  cases left with
  | none => rfl
  | some v =>
      cases right with
      | none => rfl
      | some w => cases happly : op.apply v w <;> simp [happly, Except.map, Except.toOption,
          Meaning.ofTruth]

theorem truth_connective {tag : String} {deciding : Bool} {es : List Expr}
    (h : value memory (.connective tag es) =
      (decideAll deciding (truths memory es)).map .bool) :
    (value memory (.connective tag es)).map Value.truth =
      decideAll deciding (truths memory es) := by
  rw [h]
  cases decideAll deciding (truths memory es) <;> rfl

mutual

/-- **Resolution keeps values.**  Where the operators are in their place, the term of an expression
means what the expression is worth. -/
theorem Resolves.meaning (hshown : memory.Shown bindings env) :
    ∀ {e : Expr} {t : Term}, Resolves bindings e t → e.wellKinded = true →
      t.meaning env = .ofOption (e.value memory)
  | _, _, @Resolves.identifier _ name x hfind, _ => by
      rw [Term.meaning, value, hshown.contents name x hfind]
  | _, _, .literal v, _ => by rw [Term.meaning, value, Meaning.ofOption]
  | _, _, @Resolves.unary _ tag operator e t u hlookup he happly, hkinds => by
      simp only [wellKinded, Bool.and_eq_true] at hkinds
      have hmeaning := he.meaning hshown hkinds.2
      have hkind := Operator.kind_of_tagOf hkinds.1 hlookup
      cases operator with
      | not =>
          have hmakes := Operator.makes_truthy_of_applyLogical rfl happly
          cases hmakes with
          | not _ =>
              rw [Term.meaning, (he.wellSorted hkinds.2).meaning_truthy
                (hshown.sort_eq he.contained), hmeaning, Meaning.truth_ofOption,
                Meaning.not_ofTruth]
              simp [value, hlookup, Meaning.ofTruth, Function.comp_def]
      | negate =>
          rcases Operator.apply_or_makes_truthy_of_applyLogical happly with hnegate | hmakes
          · rw [Operator.meaning_of_apply_negate hnegate, hmeaning, Meaning.lift_ofOption]
            simp [value, hlookup]
          · -- truthiness is no number
            cases hmakes with
            | negate hsort => simp [Term.sort_truthy] at hsort
      | _ => simp [Operator.isUnary] at hkind
  | _, _, @Resolves.connective _ tag operator es ts u hlookup hes happly, hkinds => by
      simp only [wellKinded, Bool.and_eq_true] at hkinds
      have hkind := Operator.kind_of_tagOf hkinds.1 hlookup
      cases operator with
      | and =>
          have hvalue : ∀ es, value memory (.connective tag es) =
              (decideAll false (truths memory es)).map .bool := by simp [value, hlookup]
          obtain ⟨operands, hoperands, hdecide⟩ := hes.meaning hshown hvalue hkinds.2
          cases Operator.makes_truthy_of_applyLogical rfl happly with
          | and _ =>
              rw [Term.meaning, Term.meanings_eq, List.map_map, hoperands,
                Meaning.joinAll_ofTruth, hdecide, hvalue, Meaning.ofTruth]
      | or =>
          have hvalue : ∀ es, value memory (.connective tag es) =
              (decideAll true (truths memory es)).map .bool := by simp [value, hlookup]
          obtain ⟨operands, hoperands, hdecide⟩ := hes.meaning hshown hvalue hkinds.2
          cases Operator.makes_truthy_of_applyLogical rfl happly with
          | or _ =>
              rw [Term.meaning, Term.meanings_eq, List.map_map, hoperands,
                Meaning.joinAll_ofTruth, hdecide, hvalue, Meaning.ofTruth]
      | _ => simp [Operator.isConnective] at hkind
  | _, _, @Resolves.comparison _ left tags es first t hleft hchain, hkinds => by
      simp only [wellKinded, Bool.and_eq_true] at hkinds
      have hlinks := hchain.meaning hshown (hleft.meaning hshown hkinds.1.1)
        hkinds.1.2 hkinds.2
      -- a chain of one link is that link
      rw [List.map_singleton] at hlinks
      obtain ⟨link, hlink, hmeaning⟩ := List.map_eq_singleton_iff.mp hlinks.symm
      rw [← hmeaning, value, hlink, decideAll_singleton, Meaning.ofTruth]
  | _, _, @Resolves.chain _ left tags es first _ _ _ hleft hchain, hkinds => by
      simp only [wellKinded, Bool.and_eq_true] at hkinds
      have hlinks := hchain.meaning hshown (hleft.meaning hshown hkinds.1.1)
        hkinds.1.2 hkinds.2
      rw [Term.meaning, Term.meanings_eq, hlinks, Meaning.joinAll_ofTruth, value, Meaning.ofTruth]
  | _, _, @Resolves.arithmetic _ tag operator left right l r u hlookup hleft hright happly,
      hkinds => by
      simp only [wellKinded, Bool.and_eq_true] at hkinds
      have hkind := Operator.kind_of_tagOf hkinds.1.1 hlookup
      cases operator with
      | arith op =>
          rw [Operator.meaning_of_apply_arith happly, hleft.meaning hshown hkinds.1.2,
            hright.meaning hshown hkinds.2, Meaning.lift₂_ofOption]
          simp [value, hlookup]
      | _ => simp [Operator.isArithmetic] at hkind

/-- Splicing keeps what a connective is decided by. -/
theorem ResolvesSpliced.meaning (hshown : memory.Shown bindings env)
    {deciding : Bool} :
    ∀ {tag : String} {es : List Expr} {ts : List Term}, ResolvesSpliced bindings tag es ts →
      (∀ es, value memory (.connective tag es) =
        (decideAll deciding (truths memory es)).map .bool) → wellKindedAll es = true →
      ∃ operands, ts.map (Term.meaning env ∘ Term.truthy) =
          operands.map Meaning.ofTruth ∧
        decideAll deciding operands = decideAll deciding (truths memory es)
  | _, _, _, .nil _, _, _ => ⟨[], rfl, rfl⟩
  | _, _, _, .splice hes hrest, hvalue, hkinds => by
      simp only [wellKindedAll, wellKinded, Bool.and_eq_true] at hkinds
      obtain ⟨first, hfirst, hdecide⟩ := hes.meaning hshown hvalue hkinds.1.2
      obtain ⟨others, hothers, hdecide'⟩ := hrest.meaning hshown hvalue hkinds.2
      refine ⟨first ++ others, by rw [List.map_append, List.map_append, hfirst, hothers], ?_⟩
      rw [truths, decideAll_cons, truth_connective (hvalue _), decideAll_append, hdecide, hdecide']
  | _, _, _, @ResolvesSpliced.cons _ _ e _ t _ he hrest, hvalue, hkinds => by
      simp only [wellKindedAll, Bool.and_eq_true] at hkinds
      obtain ⟨others, hothers, hdecide⟩ := hrest.meaning hshown hvalue hkinds.2
      refine ⟨(value memory e).map Value.truth :: others, ?_, ?_⟩
      · rw [List.map_cons, List.map_cons, hothers, Function.comp_apply,
          (he.wellSorted hkinds.1).meaning_truthy (hshown.sort_eq he.contained),
          he.meaning hshown hkinds.1, Meaning.truth_ofOption]
      · rw [truths, decideAll_cons, hdecide, ← decideAll_cons]

/-- The links of a chain have the meanings of their comparisons. -/
theorem ResolvesChain.meaning (hshown : memory.Shown bindings env) :
    ∀ {first : Term} {tags : List String} {es : List Expr} {ts : List Term}
      {left : Option Value}, ResolvesChain bindings first tags es ts →
      first.meaning env = .ofOption left →
      tags.all (Operator.tagOf Operator.isComparison) = true → wellKindedAll es = true →
      ts.map (Term.meaning env) =
        (links memory left tags es).map Meaning.ofTruth
  | _, _, _, _, _, .nil _, _, _, _ => by simp [links]
  | _, _, _, _, left, @ResolvesChain.cons _ _ _ _ _ _ operator _ _ _ hlookup he happly hrest,
      hleft, htags, hkinds => by
      simp only [wellKindedAll, List.all_cons, Bool.and_eq_true] at htags hkinds
      have hright := he.meaning hshown hkinds.1
      have hkind := Operator.kind_of_tagOf htags.1 hlookup
      cases operator with
      | cmp op =>
          rw [List.map_cons, meaning_link happly hleft hright,
            hrest.meaning hshown hright htags.2 hkinds.2]
          simp [links, hlookup]
      | _ => simp [Operator.isComparison] at hkind

end

/-! ## Tests -/

theorem exists_of_constraint {condition : Expr} {test : Term}
    (h : condition.constraint bindings = .ok test) :
    ∃ t, Resolves bindings condition t ∧ test = t.truthy := by
  unfold constraint at h
  cases hresolve : condition.resolve bindings with
  | error _ => simp [hresolve, Except.map] at h
  | ok t =>
      simp only [hresolve, Except.map, Except.ok.injEq] at h
      exact ⟨t, resolves_of_resolve bindings condition hresolve, h.symm⟩

theorem over_of_constraint (hkeyed : bindings.Keyed) {condition : Expr} {test : Term}
    (h : condition.constraint bindings = .ok test) : test.Over bindings.Binds := by
  obtain ⟨t, hresolves, rfl⟩ := exists_of_constraint h
  exact (hresolves.bound hkeyed).truthy

/-- The constraint of a test means what the value of the test counts as. -/
theorem meaning_of_constraint (hshown : memory.Shown bindings env) {condition : Expr} {test : Term}
    (hkinds : condition.wellKinded = true) (h : condition.constraint bindings = .ok test) :
    test.meaning env = .ofTruth (condition.truth memory) := by
  obtain ⟨t, hresolves, rfl⟩ := exists_of_constraint h
  rw [(hresolves.wellSorted hkinds).meaning_truthy (hshown.sort_eq hresolves.contained),
    hresolves.meaning hshown hkinds, Meaning.truth_ofOption, truth]

end Expr

/-! ## Evaluation -/

/-- What names stand for under an assignment. -/
def Memory.ofAssignment (bindings : Bindings) (assignment : Assignment) : Memory := fun name =>
  (bindings.find? name).bind fun x => assignment x.id

theorem Memory.shown_ofAssignment {bindings : Bindings} {assignment : Assignment}
    (h : ∀ name x, bindings.find? name = some x → ∃ v, assignment x.id = some v ∧ v.sort = x.sort) :
    (Memory.ofAssignment bindings assignment).Shown bindings assignment.environment := by
  have hcontents : ∀ name x, bindings.find? name = some x →
      Memory.ofAssignment bindings assignment name = assignment x.id := by
    intro name x hfind
    rw [Memory.ofAssignment, hfind, Option.bind_some]
  refine ⟨fun name x v hfind hv => ?_, fun name x hfind => ?_⟩
  · obtain ⟨w, hw, hsort⟩ := h name x hfind
    rw [hcontents name x hfind, hw, Option.some.injEq] at hv
    rw [← hv, hsort]
  · obtain ⟨w, hw, -⟩ := h name x hfind
    rw [hcontents name x hfind, hw, Assignment.environment_of_some hw, Meaning.ofOption]

namespace Expr

/-- **Evaluating resolved terms.**  Where the operators of an expression are in their place and the
bound variables have values of their sorts, the resolved term evaluates to the value of the
expression, and is undefined exactly if the expression has none.  The constraint of the expression
evaluates to what that value counts as. -/
theorem eval_of_resolve (bindings : Bindings) (e : Expr) (hkinds : e.wellKinded = true)
    (assignment : Assignment)
    (hassignment : ∀ name x, bindings.find? name = some x →
      ∃ v, assignment x.id = some v ∧ v.sort = x.sort)
    (t : Term) (h : e.resolve bindings = .ok t) :
    t.eval assignment = .ofOption (e.value (.ofAssignment bindings assignment)) ∧
      ∃ test, e.constraint bindings = .ok test ∧
        test.eval assignment = .ofTruth (e.truth (.ofAssignment bindings assignment)) := by
  have hshown := Memory.shown_ofAssignment hassignment
  have hconstraint : e.constraint bindings = .ok t.truthy := by rw [constraint, h, Except.map]
  refine ⟨?_, t.truthy, hconstraint, ?_⟩
  · rw [Term.eval_eq_meaning]
    exact (resolves_of_resolve bindings e h).meaning hshown hkinds
  · rw [Term.eval_eq_meaning]
    exact meaning_of_constraint hshown hkinds hconstraint

/-- With `n = 0`, the disjunction of `"ab" * 0`, of a chain that divides by `n`, and of `not n`.  The
first operand is folded to the empty text, the second has no value and the third decides.  The name
`n` stands for a variable of another name. -/
theorem eval_of_resolve_undefined_operand :
    let x : Var := ⟨7, "count", .int⟩
    let bindings : Bindings := NameMap.empty.insert "n" x
    let assignment : Assignment := Assignment.empty.set 7 (.int 0)
    let quotient : Expr := .arithmetic "//" (.literal (.int 1)) (.identifier "n")
    let e : Expr := .connective "or"
      [.connective "or"
        [.arithmetic "*" (.literal (.str "ab")) (.literal (.int 0)),
          .comparison quotient ["<", "<="] [.literal (.int 3), .identifier "n"]],
        .unary "not" (.identifier "n")]
    let t : Term := .or
      [.cmp .ne (.const (.str "")) (.const (.str "")),
        .and [.cmp .lt (.arith .div (.const (.int 1)) (.var x)) (.const (.int 3)),
          .cmp .le (.const (.int 3)) (.var x)],
        .not (.cmp .ne (.var x) (.const (.int 0)))]
    (e.wellKinded = true ∧ e.resolve bindings = .ok t ∧
      quotient.value (.ofAssignment bindings assignment) = none ∧
      e.value (.ofAssignment bindings assignment) = some (.bool true)) ∧
      t.eval assignment = .ofOption (e.value (.ofAssignment bindings assignment)) ∧
        ∃ test, e.constraint bindings = .ok test ∧
          test.eval assignment = .ofTruth (e.truth (.ofAssignment bindings assignment)) := by
  intro x bindings assignment quotient e t
  have hassignment : ∀ name y, bindings.find? name = some y →
      ∃ v, assignment y.id = some v ∧ v.sort = y.sort := by
    intro name y hfind
    rw [NameMap.find?_insert, NameMap.find?_empty] at hfind
    split at hfind
    · cases hfind
      exact ⟨.int 0, rfl, rfl⟩
    · cases hfind
  have hresolve : e.resolve bindings = .ok t := by rfl
  exact ⟨⟨by rfl, hresolve, by rfl, by rfl⟩,
    eval_of_resolve bindings e (by rfl) assignment hassignment t hresolve⟩

end Expr

end BranchWitness
