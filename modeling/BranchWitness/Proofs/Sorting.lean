import BranchWitness.Proofs.Resolution

/-!
# Sorts of resolved terms

Operators check the sorts of their operands when they build a term, so nearly everything that
resolution makes is well-sorted.  There is one exception.  The links of a chain of comparisons are
joined to a conjunction that no operator has looked at, and the tags of the links may name any
operator.  A link with an arithmetic tag is a number or a text:

```text
x < y < z      And(x < y, y < z)            links are truth values
x + y          (x + y)                      one link, nothing is joined
x + y < z      And((x + y), y < z)          the first operand is a number
```

`Expr.chainsCompare` rules out the third kind, and nothing else needs to be ruled out: a resolved
term is well-sorted exactly if the expression has no such chain (`Resolves.wellSorted_iff`).
An ill-sorted conjunction never disappears again, because only constants are folded.  Expressions
whose operators are in their place (`Expr.wellKinded`) have no such chain.
-/

namespace BranchWitness

/-! ## Kinds of operators -/

namespace Operator

/-- The operators of a unary node. -/
def isUnary : Operator → Bool
  | not | negate => true
  | _ => false

/-- The operators of a connective. -/
def isConnective : Operator → Bool
  | and | or => true
  | _ => false

/-- The operators of a comparison. -/
def isComparison : Operator → Bool
  | cmp _ => true
  | _ => false

/-- The operators of an arithmetic node. -/
def isArithmetic : Operator → Bool
  | arith _ => true
  | _ => false

/-- The operators that give truth values. -/
def isTruthValued : Operator → Bool
  | and | or | not | cmp _ => true
  | negate | arith _ => false

/-- Whether the tag, if it names an operator, names one of the given kind. -/
def tagOf (kind : Operator → Bool) (tag : String) : Bool :=
  (tags.lookup tag).all kind

theorem tagOf_eq_of_lookup {kind : Operator → Bool} {tag : String} {operator : Operator}
    (hlookup : tags.lookup tag = some operator) : tagOf kind tag = kind operator := by
  simp [tagOf, hlookup]

theorem kind_of_tagOf {kind : Operator → Bool} {tag : String} {operator : Operator}
    (h : tagOf kind tag = true) (hlookup : tags.lookup tag = some operator) :
    kind operator = true := by
  rwa [tagOf_eq_of_lookup hlookup] at h

theorem tagOf_mono {kind kind' : Operator → Bool}
    (h : ∀ operator, kind operator = true → kind' operator = true) {tag : String}
    (htag : tagOf kind tag = true) : tagOf kind' tag = true := by
  unfold tagOf at htag ⊢
  cases hlookup : tags.lookup tag with
  | none => rfl
  | some operator =>
      rw [hlookup] at htag
      exact h operator htag

end Operator

namespace Expr

mutual

/-- Whether every tag of the expression that names an operator names one of the kind of its
node. -/
def wellKinded : Expr → Bool
  | identifier _ => true
  | literal _ => true
  | unary op operand => Operator.tagOf Operator.isUnary op && wellKinded operand
  | connective op operands =>
      Operator.tagOf Operator.isConnective op && wellKindedAll operands
  | comparison left ops comparators =>
      wellKinded left && ops.all (Operator.tagOf Operator.isComparison)
        && wellKindedAll comparators
  | arithmetic op left right =>
      Operator.tagOf Operator.isArithmetic op && wellKinded left && wellKinded right

/-- Whether the tags of several expressions name operators of the kinds of their nodes. -/
def wellKindedAll : List Expr → Bool
  | [] => true
  | e :: es => wellKinded e && wellKindedAll es

end

mutual

/-- Whether the links of every chain of two or more comparisons have tags of operators that give
truth values. -/
def chainsCompare : Expr → Bool
  | identifier _ => true
  | literal _ => true
  | unary _ operand => chainsCompare operand
  | connective _ operands => chainsCompareAll operands
  | comparison left ops comparators =>
      (decide (ops.length ≤ 1) || ops.all (Operator.tagOf Operator.isTruthValued))
        && chainsCompare left && chainsCompareAll comparators
  | arithmetic _ left right => chainsCompare left && chainsCompare right

/-- Whether the chains in several expressions have links that are truth values. -/
def chainsCompareAll : List Expr → Bool
  | [] => true
  | e :: es => chainsCompare e && chainsCompareAll es

end

mutual

theorem chainsCompare_of_wellKinded :
    ∀ {e : Expr}, e.wellKinded = true → e.chainsCompare = true
  | .identifier _, _ => rfl
  | .literal _, _ => rfl
  | .unary _ _, h => by
      simp only [wellKinded, Bool.and_eq_true] at h
      rw [chainsCompare, chainsCompare_of_wellKinded h.2]
  | .connective _ _, h => by
      simp only [wellKinded, Bool.and_eq_true] at h
      rw [chainsCompare, chainsCompareAll_of_wellKindedAll h.2]
  | .comparison left tags es, h => by
      simp only [wellKinded, Bool.and_eq_true] at h
      obtain ⟨⟨hleft, htags⟩, hes⟩ := h
      have hcompare : tags.all (Operator.tagOf Operator.isTruthValued) = true := by
        refine List.all_eq_true.mpr fun tag htag => ?_
        refine Operator.tagOf_mono (fun operator hoperator => ?_) (List.all_eq_true.mp htags tag htag)
        cases operator <;> simp_all [Operator.isComparison, Operator.isTruthValued]
      simp only [chainsCompare, hcompare, chainsCompare_of_wellKinded hleft,
        chainsCompareAll_of_wellKindedAll hes, Bool.or_true, Bool.and_self]
  | .arithmetic _ _ _, h => by
      simp only [wellKinded, Bool.and_eq_true] at h
      simp only [chainsCompare, chainsCompare_of_wellKinded h.1.2, chainsCompare_of_wellKinded h.2,
        Bool.and_self]

theorem chainsCompareAll_of_wellKindedAll :
    ∀ {es : List Expr}, wellKindedAll es = true → chainsCompareAll es = true
  | [], _ => rfl
  | _ :: _, h => by
      simp only [wellKindedAll, Bool.and_eq_true] at h
      simp only [chainsCompareAll, chainsCompare_of_wellKinded h.1,
        chainsCompareAll_of_wellKindedAll h.2, Bool.and_self]

end

end Expr

/-! ## Sorts of links -/

theorem sort_of_multiplyText {s : String} {count : Int64} {result : Value}
    (h : multiplyText s count = .ok result) : result.sort = .str := by
  unfold multiplyText at h
  split at h
  · cases h
  · cases h
    rfl

theorem ArithOp.sort_ne_bool_of_apply {op : ArithOp} {v w result : Value}
    (h : op.apply v w = .ok result) : result.sort ≠ .bool := by
  unfold apply at h
  split at h
  case h_1 => simp [sort_of_concatTexts h]
  case h_6 => simp [sort_of_onNumbers h]
  all_goals simp [sort_of_multiplyText h]

theorem Term.sort_arith_ne_bool (op : ArithOp) (l r : Term) :
    (Term.arith op l r).sort ≠ .bool := by
  cases op
  case add =>
    unfold Term.sort
    split <;> simp
  all_goals simp [Term.sort]

namespace Operator

/-- What an operator gives for two operands is a truth value exactly if the operator is one that
gives truth values. -/
theorem sort_eq_bool_iff_of_apply {operator : Operator} {l r t : Term}
    (h : operator.apply [l, r] = .ok t) : t.sort = .bool ↔ operator.isTruthValued = true := by
  rcases makes_or_folds_of_apply h with hmakes | ⟨operation, values, v, hfold, hvalues, hv, rfl⟩
  · cases hmakes with
    | and _ => exact iff_of_true rfl rfl
    | or _ => exact iff_of_true rfl rfl
    | cmp _ _ => exact iff_of_true rfl rfl
    | arith _ => exact iff_of_false (Term.sort_arith_ne_bool _ l r) (by simp [isTruthValued])
  · obtain ⟨a, b, rfl, -, -⟩ := exists_pair_of_map_const hvalues
    cases operator with
    | and => cases hfold
    | or => cases hfold
    | not => cases hfold
    | negate =>
        cases hfold
        cases hv
    | cmp op =>
        cases hfold
        have hcompare : (op.apply a b).map .bool = .ok v := hv
        cases happly : op.apply a b with
        | error _ => simp [happly, Except.map] at hcompare
        | ok truth =>
            simp only [happly, Except.map, Except.ok.injEq] at hcompare
            rw [← hcompare]
            exact iff_of_true rfl rfl
    | arith op =>
        cases hfold
        have harith : op.apply a b = .ok v := hv
        exact iff_of_false (ArithOp.sort_ne_bool_of_apply harith) (by simp [isTruthValued])

end Operator

namespace Expr

variable {bindings : Bindings}

theorem ResolvesChain.length_eq {left : Term} {tags : List String} {es : List Expr}
    {ts : List Term} : ResolvesChain bindings left tags es ts → ts.length = tags.length
  | .nil _ => rfl
  | .cons _ _ _ hrest => by simp only [List.length_cons, hrest.length_eq]

theorem ResolvesChain.sort_eq_bool_iff {left : Term} {tags : List String} {es : List Expr}
    {ts : List Term} : ResolvesChain bindings left tags es ts →
      ((∀ t ∈ ts, t.sort = .bool) ↔ tags.all (Operator.tagOf Operator.isTruthValued) = true)
  | .nil _ => by simp
  | .cons hlookup _ happly hrest => by
      rw [List.forall_mem_cons, List.all_cons, Bool.and_eq_true, hrest.sort_eq_bool_iff,
        Operator.sort_eq_bool_iff_of_apply happly, Operator.tagOf_eq_of_lookup hlookup]

/-- The term that a chain starts with is an operand of its first link. -/
theorem ResolvesChain.wellSorted_left {left t : Term} {tags : List String} {es : List Expr}
    {ts : List Term} (h : ResolvesChain bindings left tags es (t :: ts)) (ht : t.WellSorted) :
    left.WellSorted := by
  cases h with
  | cons _ _ happly _ =>
      exact (Operator.wellSorted_iff_of_apply happly).mp ht left List.mem_cons_self

/-! ## Well-sorted terms -/

mutual

/-- A resolved term is well-sorted exactly if every joined link is a truth value. -/
theorem Resolves.wellSorted_iff :
    ∀ {e : Expr} {t : Term}, Resolves bindings e t → (t.WellSorted ↔ e.chainsCompare = true)
  | _, _, @Resolves.identifier _ _ x _ => iff_of_true (.var x) rfl
  | _, _, .literal v => iff_of_true (.const v) rfl
  | _, _, .unary _ he happly => by
      rw [Operator.wellSorted_iff_of_applyLogical happly, List.forall_mem_singleton,
        he.wellSorted_iff, chainsCompare]
  | _, _, .connective _ hes happly => by
      rw [Operator.wellSorted_iff_of_applyLogical happly, hes.wellSorted_iff, chainsCompare]
  | _, _, @Resolves.comparison _ left tags es first t hleft hchain => by
      have hone : tags.length ≤ 1 := by
        have hlength := hchain.length_eq
        simp only [List.length_cons, List.length_nil] at hlength
        omega
      have hlinks := hchain.wellSorted_iff
      rw [hleft.wellSorted_iff, List.forall_mem_singleton] at hlinks
      have hfirst : t.WellSorted → left.chainsCompare = true := fun ht =>
        hleft.wellSorted_iff.mp (hchain.wellSorted_left ht)
      simp only [chainsCompare, hone, decide_true, Bool.true_or, Bool.true_and, Bool.and_eq_true]
      rw [← hlinks]
      exact ⟨fun ht => ⟨hfirst ht, ht⟩, And.right⟩
  | _, _, @Resolves.chain _ left tags es first t u ts hleft hchain => by
      have hmany : ¬ tags.length ≤ 1 := by
        have hlength := hchain.length_eq
        simp only [List.length_cons] at hlength
        omega
      have hlinks := hchain.wellSorted_iff
      rw [hleft.wellSorted_iff] at hlinks
      have hsorts := hchain.sort_eq_bool_iff
      simp only [chainsCompare, hmany, decide_false, Bool.false_or, Bool.and_eq_true, ← hsorts]
      rw [and_assoc, ← hlinks]
      constructor
      · intro h
        cases h with
        | and hwell hbool =>
            have hfirst := hchain.wellSorted_left (hwell t List.mem_cons_self)
            exact ⟨hbool, hleft.wellSorted_iff.mp hfirst, hwell⟩
      · rintro ⟨hbool, -, hwell⟩
        exact .and hwell hbool
  | _, _, .arithmetic _ hleft hright happly => by
      rw [Operator.wellSorted_iff_of_apply happly, List.forall_mem_cons, List.forall_mem_singleton,
        hleft.wellSorted_iff, hright.wellSorted_iff, chainsCompare, Bool.and_eq_true]

theorem ResolvesSpliced.wellSorted_iff :
    ∀ {tag : String} {es : List Expr} {ts : List Term}, ResolvesSpliced bindings tag es ts →
      ((∀ t ∈ ts, t.WellSorted) ↔ chainsCompareAll es = true)
  | _, _, _, .nil _ => by simp [chainsCompareAll]
  | _, _, _, .splice hes hrest => by
      rw [List.forall_mem_append, hes.wellSorted_iff, hrest.wellSorted_iff, chainsCompareAll,
        chainsCompare, Bool.and_eq_true]
  | _, _, _, .cons he hrest => by
      rw [List.forall_mem_cons, he.wellSorted_iff, hrest.wellSorted_iff, chainsCompareAll,
        Bool.and_eq_true]

/-- The term that the chain starts with is on both sides, as a chain without links says nothing
about it. -/
theorem ResolvesChain.wellSorted_iff :
    ∀ {left : Term} {tags : List String} {es : List Expr} {ts : List Term},
      ResolvesChain bindings left tags es ts →
      (left.WellSorted ∧ (∀ t ∈ ts, t.WellSorted) ↔
        left.WellSorted ∧ chainsCompareAll es = true)
  | _, _, _, _, .nil _ => by simp [chainsCompareAll]
  | left, _, _, _, @ResolvesChain.cons _ _ right u _ _ _ e es others _ he happly hrest => by
      have hlink : u.WellSorted ↔ left.WellSorted ∧ right.WellSorted := by
        rw [Operator.wellSorted_iff_of_apply happly, List.forall_mem_cons,
          List.forall_mem_singleton]
      have hothers := hrest.wellSorted_iff
      rw [List.forall_mem_cons, hlink, chainsCompareAll, Bool.and_eq_true, ← he.wellSorted_iff,
        ← hothers]
      constructor
      · rintro ⟨hleft, ⟨-, hright⟩, hrest⟩
        exact ⟨hleft, hright, hrest⟩
      · rintro ⟨hleft, hright, hrest⟩
        exact ⟨hleft, ⟨hleft, hright⟩, hrest⟩

end

/-- Where the operators are in their place, resolved terms are well-sorted. -/
theorem Resolves.wellSorted {e : Expr} {t : Term} (h : Resolves bindings e t)
    (hkinds : e.wellKinded = true) : t.WellSorted :=
  h.wellSorted_iff.mpr (chainsCompare_of_wellKinded hkinds)

/-- **Sorts of resolved terms.**  Whatever tags its nodes have, the term that an expression resolves
to is well-sorted exactly if the links of its longer chains are truth values. -/
theorem wellSorted_of_resolve_iff (bindings : Bindings) (e : Expr) (t : Term)
    (h : e.resolve bindings = .ok t) : t.WellSorted ↔ e.chainsCompare = true :=
  (resolves_of_resolve bindings e h).wellSorted_iff

/-- A disjunction of a sum, written as a chain of one link, and a chain whose first link is a
conjunction. -/
theorem wellSorted_of_resolve_iff_mixed :
    let x : Var := ⟨0, "x", .int⟩
    let bindings : Bindings := NameMap.empty.insert "x" x
    let e : Expr := .connective "or"
      [.comparison (.identifier "x") ["+"] [.literal (.int 1)],
        .comparison (.comparison (.identifier "x") ["<"] [.literal (.int 3)]) ["and", "=="]
          [.literal (.bool true), .literal (.bool false)]]
    let t : Term := .or
      [.cmp .ne (.arith .add (.var x) (.const (.int 1))) (.const (.int 0)),
        .and [.and [.cmp .lt (.var x) (.const (.int 3)), .const (.bool true)],
          .cmp .eq (.const (.bool true)) (.const (.bool false))]]
    (e.resolve bindings = .ok t ∧ e.chainsCompare = true) ∧
      (t.WellSorted ↔ e.chainsCompare = true) := by
  intro x bindings e t
  have hresolve : e.resolve bindings = .ok t := by rfl
  exact ⟨⟨hresolve, by rfl⟩, wellSorted_of_resolve_iff bindings e t hresolve⟩

/-- **Chains of sums.**  The chain `x + 1 + 2` resolves to a conjunction of two numbers. -/
theorem resolve_illSorted_of_arithmetic_chain :
    let x : Var := ⟨0, "x", .int⟩
    let bindings : Bindings := NameMap.empty.insert "x" x
    let e : Expr := .comparison (.identifier "x") ["+", "+"]
      [.literal (.int 1), .literal (.int 2)]
    let t : Term := .and [.arith .add (.var x) (.const (.int 1)),
      .arith .add (.const (.int 1)) (.const (.int 2))]
    e.resolve bindings = .ok t ∧ ¬ t.WellSorted := by
  intro x bindings e t
  refine ⟨by rfl, fun h => ?_⟩
  dsimp only [t] at h
  cases h with
  | and _ hsorts => cases hsorts _ List.mem_cons_self

end Expr

end BranchWitness
