import BranchWitness.Proofs.WellSorted

/-!
# What expressions resolve to

`Expr.Resolves` says, rule by rule, which term an expression stands for.  `Expr.resolve` finds that
term or fails (`resolves_of_resolve`), so a law about resolved terms is proved by going through the
rules once, and no proof below looks into the translation itself.

Operators come first: what applying one gives is well-sorted exactly if the operands are
(`wellSorted_iff_of_apply`), and has the variables of the operands.  So the variables of a resolved
term are ones that names stand for (`Resolves.contained`).
-/

namespace BranchWitness

/-- Induction over expressions, with the hypothesis for every operand. -/
theorem Expr.inductionOn {motive : Expr → Prop}
    (identifier : ∀ name, motive (.identifier name)) (literal : ∀ value, motive (.literal value))
    (unary : ∀ op operand, motive operand → motive (.unary op operand))
    (connective : ∀ op operands, (∀ e ∈ operands, motive e) → motive (.connective op operands))
    (comparison : ∀ left ops comparators, motive left → (∀ e ∈ comparators, motive e) →
      motive (.comparison left ops comparators))
    (arithmetic : ∀ op left right, motive left → motive right → motive (.arithmetic op left right))
    (e : Expr) : motive e :=
  @Expr.rec motive (fun es => ∀ e ∈ es, motive e) identifier literal unary connective comparison
    arithmetic (fun _ hmem => absurd hmem List.not_mem_nil)
    (fun _ _ hhead hrest _ hmem => (List.mem_cons.mp hmem).elim (fun h => h ▸ hhead) (hrest _)) e

/-! ## Applying operators -/

theorem Term.eq_map_const_of_mapM {ts : List Term} {values : List Value}
    (h : ts.mapM Term.constant? = some values) : ts = values.map .const := by
  induction ts generalizing values with
  | nil => simp_all
  | cons t rest ih =>
      rw [List.mapM_cons] at h
      cases t with
      | const v =>
          simp only [constant?, Option.pure_def, Option.bind_eq_bind, Option.bind_some] at h
          cases hrest : rest.mapM constant? with
          | none => simp [hrest] at h
          | some others =>
              simp only [hrest, Option.bind_some, Option.some.injEq] at h
              subst h
              rw [List.map_cons, ih hrest]
      | _ => simp [constant?] at h

namespace Operator

theorem makes_of_build {operator : Operator} {operands : List Term} {t : Term}
    (h : operator.build operands = .ok t) : Makes operator operands t := by
  unfold build at h
  split at h
  · rename_i u hconstruct
    cases h
    exact makes_of_construct hconstruct
  · cases h

/-- An operator that refuses its operands folds constants. -/
theorem makes_or_folds_of_apply {operator : Operator} {operands : List Term} {t : Term}
    (h : operator.apply operands = .ok t) :
    Makes operator operands t ∨ ∃ operation values v, operator.fold? = some operation ∧
      operands = values.map .const ∧ operation values = .ok v ∧ t = .const v := by
  unfold apply at h
  split at h
  · rename_i u hbuild
    cases h
    exact .inl (makes_of_build hbuild)
  · right
    split at h
    · rename_i v hfold
      cases h
      unfold foldConstants? at hfold
      split at hfold
      · rename_i operation values hoperation hvalues
        refine ⟨operation, values, v, hoperation, Term.eq_map_const_of_mapM hvalues, ?_, rfl⟩
        cases hresult : operation values with
        | ok w => simpa [hresult, Except.toOption] using hfold
        | error _ => simp [hresult, Except.toOption] at hfold
      · cases hfold
    · cases h

theorem exists_pair_of_map_const {l r : Term} {values : List Value}
    (h : [l, r] = values.map .const) : ∃ a b, values = [a, b] ∧ l = .const a ∧ r = .const b := by
  obtain ⟨a, rest, rfl, rfl, hrest⟩ := List.map_eq_cons_iff.mp h.symm
  obtain ⟨b, rfl, rfl⟩ := List.map_eq_singleton_iff.mp hrest
  exact ⟨a, b, rfl, rfl, rfl⟩

theorem apply_or_makes_truthy_of_applyLogical {operator : Operator} {operands : List Term}
    {t : Term} (h : operator.applyLogical operands = .ok t) :
    operator.apply operands = .ok t ∨ Makes operator (operands.map Term.truthy) t := by
  unfold applyLogical at h
  split at h
  · rename_i u happly
    cases h
    exact .inl happly
  · split at h
    · split at h
      · rename_i u hbuild
        cases h
        exact .inr (makes_of_build hbuild)
      · cases h
    · cases h

theorem applyLogical_of_construct {operator : Operator} {operands : List Term} {t : Term}
    (h : operator.construct operands = .ok t) : operator.applyLogical operands = .ok t := by
  simp only [applyLogical, apply, build, h]

theorem buildConnective_of_bools {make : List Term → Term} {operands : List Term}
    (hne : operands ≠ []) (hsorts : ∀ t ∈ operands, t.sort = .bool) :
    buildConnective make operands = .ok (make operands) := by
  have hfind : operands.find? (fun t => t.sort ≠ .bool) = none := by
    refine List.find?_eq_none.mpr fun t ht => ?_
    simp [hsorts t ht]
  unfold buildConnective
  rw [if_neg (by simpa using hne), hfind]

theorem Makes.occurrences_eq {operator : Operator} {operands : List Term} {t : Term}
    (h : Makes operator operands t) : t.occurrences = operands.flatMap Term.occurrences := by
  cases h <;> simp [Term.occurrences]

/-- What an operator makes is well-sorted exactly if its operands are. -/
theorem Makes.wellSorted_iff {operator : Operator} {operands : List Term} {t : Term}
    (h : Makes operator operands t) : t.WellSorted ↔ ∀ u ∈ operands, u.WellSorted := by
  constructor
  · intro ht
    cases h with
    | and hsorts =>
        cases ht with
        | and hoperands _ => exact hoperands
    | or hsorts =>
        cases ht with
        | or hoperands _ => exact hoperands
    | not hsort =>
        cases ht with
        | not hoperand _ => simpa using hoperand
    | negate hsort =>
        cases ht with
        | neg hoperand _ => simpa using hoperand
    | cmp hsame hordered =>
        cases ht with
        | cmp hl hr _ _ => simpa using ⟨hl, hr⟩
    | arith hsorts =>
        cases ht with
        | arith hl hr _ => simpa using ⟨hl, hr⟩
  · intro hoperands
    cases h with
    | and hsorts => exact .and hoperands hsorts
    | or hsorts => exact .or hoperands hsorts
    | not hsort => exact .not (hoperands _ (by simp)) hsort
    | negate hsort => exact .neg (hoperands _ (by simp)) hsort
    | cmp hsame hordered =>
        exact .cmp (hoperands _ (by simp)) (hoperands _ (by simp)) hsame hordered
    | arith hsorts => exact .arith (hoperands _ (by simp)) (hoperands _ (by simp)) hsorts

theorem occurrences_of_apply {operator : Operator} {operands : List Term} {t : Term}
    (h : operator.apply operands = .ok t) :
    t.occurrences = operands.flatMap Term.occurrences := by
  rcases makes_or_folds_of_apply h with hmakes | ⟨operation, values, v, -, rfl, -, rfl⟩
  · exact hmakes.occurrences_eq
  · simp [Term.occurrences, List.flatMap_map]

theorem occurrences_of_applyLogical {operator : Operator} {operands : List Term} {t : Term}
    (h : operator.applyLogical operands = .ok t) :
    t.occurrences = operands.flatMap Term.occurrences := by
  rcases apply_or_makes_truthy_of_applyLogical h with happly | hmakes
  · exact occurrences_of_apply happly
  · rw [hmakes.occurrences_eq, List.flatMap_map]
    simp only [Term.occurrences_truthy]

theorem wellSorted_iff_of_apply {operator : Operator} {operands : List Term} {t : Term}
    (h : operator.apply operands = .ok t) : t.WellSorted ↔ ∀ u ∈ operands, u.WellSorted := by
  rcases makes_or_folds_of_apply h with hmakes | ⟨operation, values, v, -, rfl, -, rfl⟩
  · exact hmakes.wellSorted_iff
  · refine iff_of_true (.const v) fun u hu => ?_
    obtain ⟨w, -, rfl⟩ := List.mem_map.mp hu
    exact .const w

theorem wellSorted_iff_of_applyLogical {operator : Operator} {operands : List Term} {t : Term}
    (h : operator.applyLogical operands = .ok t) :
    t.WellSorted ↔ ∀ u ∈ operands, u.WellSorted := by
  rcases apply_or_makes_truthy_of_applyLogical h with happly | hmakes
  · exact wellSorted_iff_of_apply happly
  · rw [hmakes.wellSorted_iff, List.forall_mem_map]
    exact forall₂_congr fun u _ => Term.WellSorted.truthy_iff

end Operator

/-! ## The rules of resolution -/

namespace Expr

mutual

/-- The term that an expression stands for, rule by rule. -/
inductive Resolves (bindings : Bindings) : Expr → Term → Prop
  | identifier {name : String} {x : Var} :
      bindings.find? name = some x → Resolves bindings (.identifier name) (.var x)
  | literal (v : Value) : Resolves bindings (.literal v) (.const v)
  | unary {tag : String} {operator : Operator} {e : Expr} {t u : Term} :
      Operator.tags.lookup tag = some operator → Resolves bindings e t →
      operator.applyLogical [t] = .ok u → Resolves bindings (.unary tag e) u
  | connective {tag : String} {operator : Operator} {es : List Expr} {ts : List Term} {u : Term} :
      Operator.tags.lookup tag = some operator → ResolvesSpliced bindings tag es ts →
      operator.applyLogical ts = .ok u → Resolves bindings (.connective tag es) u
  | comparison {left : Expr} {tags : List String} {es : List Expr} {first t : Term} :
      Resolves bindings left first → ResolvesChain bindings first tags es [t] →
      Resolves bindings (.comparison left tags es) t
  | chain {left : Expr} {tags : List String} {es : List Expr} {first t u : Term}
      {ts : List Term} :
      Resolves bindings left first → ResolvesChain bindings first tags es (t :: u :: ts) →
      Resolves bindings (.comparison left tags es) (.and (t :: u :: ts))
  | arithmetic {tag : String} {operator : Operator} {left right : Expr} {l r u : Term} :
      Operator.tags.lookup tag = some operator → Resolves bindings left l →
      Resolves bindings right r → operator.apply [l, r] = .ok u →
      Resolves bindings (.arithmetic tag left right) u

/-- The operands of a connective, those of nested connectives with its tag in their place. -/
inductive ResolvesSpliced (bindings : Bindings) : String → List Expr → List Term → Prop
  | nil (tag : String) : ResolvesSpliced bindings tag [] []
  | splice {tag : String} {es rest : List Expr} {ts others : List Term} :
      ResolvesSpliced bindings tag es ts → ResolvesSpliced bindings tag rest others →
      ResolvesSpliced bindings tag (.connective tag es :: rest) (ts ++ others)
  | cons {tag : String} {e : Expr} {rest : List Expr} {t : Term} {others : List Term} :
      Resolves bindings e t → ResolvesSpliced bindings tag rest others →
      ResolvesSpliced bindings tag (e :: rest) (t :: others)

/-- The comparisons of a chain that starts with a given term. -/
inductive ResolvesChain (bindings : Bindings) : Term → List String → List Expr → List Term → Prop
  | nil (left : Term) : ResolvesChain bindings left [] [] []
  | cons {left right u : Term} {tag : String} {tags : List String} {operator : Operator} {e : Expr}
      {es : List Expr} {others : List Term} :
      Operator.tags.lookup tag = some operator → Resolves bindings e right →
      operator.apply [left, right] = .ok u → ResolvesChain bindings right tags es others →
      ResolvesChain bindings left (tag :: tags) (e :: es) (u :: others)

end

theorem exists_of_bind_eq_ok {α β : Type} {result : Except Error α} {next : α → Except Error β}
    {b : β} (h : (result >>= next) = .ok b) : ∃ a, result = .ok a ∧ next a = .ok b := by
  cases result with
  | ok a => exact ⟨a, rfl, h⟩
  | error _ => cases h

theorem lookup_of_ofTag {tag : String} {operator : Operator}
    (h : Operator.ofTag tag = .ok operator) : Operator.tags.lookup tag = some operator := by
  unfold Operator.ofTag at h
  split at h
  · cases h
    assumption
  · cases h

theorem ofTag_of_lookup {tag : String} {operator : Operator}
    (h : Operator.tags.lookup tag = some operator) : Operator.ofTag tag = .ok operator := by
  rw [Operator.ofTag, h]

/-- An operand that is no connective takes one place in the list of operands. -/
theorem resolvesSpliced_single {bindings : Bindings} {tag : String} {e : Expr} {rest : List Expr}
    {ts : List Term} (hform : ∀ op operands, e ≠ .connective op operands)
    (hoperand : ∀ {t}, e.resolve bindings = .ok t → Resolves bindings e t)
    (hrest : ∀ {others}, resolveSpliced bindings tag rest = .ok others →
      ResolvesSpliced bindings tag rest others)
    (h : resolveSpliced bindings tag (e :: rest) = .ok ts) :
    ResolvesSpliced bindings tag (e :: rest) ts := by
  rw [resolveSpliced] at h
  · obtain ⟨t, ht, h⟩ := exists_of_bind_eq_ok h
    obtain ⟨others, hothers, h⟩ := exists_of_bind_eq_ok h
    cases h
    exact .cons (hoperand ht) (hrest hothers)
  · exact hform

mutual

/-- A term that resolution gives is one the expression stands for. -/
theorem resolves_of_resolve (bindings : Bindings) :
    ∀ (e : Expr) {t : Term}, e.resolve bindings = .ok t → Resolves bindings e t
  | .identifier name, t, h => by
      rw [resolve] at h
      split at h
      · rename_i x hfind
        cases h
        exact .identifier hfind
      · cases h
  | .literal v, t, h => by
      rw [resolve] at h
      cases h
      exact .literal v
  | .unary tag e, t, h => by
      rw [resolve] at h
      obtain ⟨operator, hoperator, h⟩ := exists_of_bind_eq_ok h
      obtain ⟨u, hu, h⟩ := exists_of_bind_eq_ok h
      exact .unary (lookup_of_ofTag hoperator) (resolves_of_resolve bindings e hu) h
  | .connective tag es, t, h => by
      rw [resolve] at h
      obtain ⟨operator, hoperator, h⟩ := exists_of_bind_eq_ok h
      obtain ⟨ts, hts, h⟩ := exists_of_bind_eq_ok h
      exact .connective (lookup_of_ofTag hoperator)
        (resolvesSpliced_of_resolveSpliced bindings tag es hts) h
  | .comparison left tags es, t, h => by
      rw [resolve] at h
      split at h
      · cases h
      · rename_i hlength
        obtain ⟨first, hfirst, h⟩ := exists_of_bind_eq_ok h
        obtain ⟨ts, hts, h⟩ := exists_of_bind_eq_ok h
        have hchain := resolvesChain_of_resolveChain bindings es (by simp_all) hts
        have hleft := resolves_of_resolve bindings left hfirst
        split at h
        · cases h
          exact .comparison hleft hchain
        · rename_i hsingle
          cases h
          -- there is an operator, so there are at least two links
          cases hchain with
          | nil => simp at hlength
          | cons hlookup he happly hrest =>
              cases hrest with
              | nil => exact absurd rfl (hsingle _)
              | cons hlookup' he' happly' hrest' =>
                  exact .chain hleft
                    (.cons hlookup he happly (.cons hlookup' he' happly' hrest'))
  | .arithmetic tag left right, t, h => by
      rw [resolve] at h
      obtain ⟨operator, hoperator, h⟩ := exists_of_bind_eq_ok h
      obtain ⟨l, hl, h⟩ := exists_of_bind_eq_ok h
      obtain ⟨r, hr, h⟩ := exists_of_bind_eq_ok h
      exact .arithmetic (lookup_of_ofTag hoperator) (resolves_of_resolve bindings left hl)
        (resolves_of_resolve bindings right hr) h

theorem resolvesSpliced_of_resolveSpliced (bindings : Bindings) (tag : String) :
    ∀ (es : List Expr) {ts : List Term}, resolveSpliced bindings tag es = .ok ts →
      ResolvesSpliced bindings tag es ts
  | [], ts, h => by
      rw [resolveSpliced] at h
      cases h
      exact .nil tag
  | .connective op operands :: rest, ts, h => by
      rw [resolveSpliced] at h
      split at h
      · rename_i hop
        subst hop
        obtain ⟨first, hfirst, h⟩ := exists_of_bind_eq_ok h
        obtain ⟨others, hothers, h⟩ := exists_of_bind_eq_ok h
        cases h
        exact .splice (resolvesSpliced_of_resolveSpliced bindings op operands hfirst)
          (resolvesSpliced_of_resolveSpliced bindings op rest hothers)
      · obtain ⟨first, hfirst, h⟩ := exists_of_bind_eq_ok h
        obtain ⟨others, hothers, h⟩ := exists_of_bind_eq_ok h
        cases h
        cases ht : resolve bindings (.connective op operands) with
        | error _ => simp [ht, Except.map] at hfirst
        | ok t =>
            simp only [ht, Except.map, Except.ok.injEq] at hfirst
            subst hfirst
            exact .cons (resolves_of_resolve bindings (.connective op operands) ht)
              (resolvesSpliced_of_resolveSpliced bindings tag rest hothers)
  | .identifier name :: rest, _, h =>
      resolvesSpliced_single (by simp) (resolves_of_resolve bindings (.identifier name))
        (resolvesSpliced_of_resolveSpliced bindings tag rest) h
  | .literal v :: rest, _, h =>
      resolvesSpliced_single (by simp) (resolves_of_resolve bindings (.literal v))
        (resolvesSpliced_of_resolveSpliced bindings tag rest) h
  | .unary op operand :: rest, _, h =>
      resolvesSpliced_single (by simp) (resolves_of_resolve bindings (.unary op operand))
        (resolvesSpliced_of_resolveSpliced bindings tag rest) h
  | .comparison left ops es :: rest, _, h =>
      resolvesSpliced_single (by simp) (resolves_of_resolve bindings (.comparison left ops es))
        (resolvesSpliced_of_resolveSpliced bindings tag rest) h
  | .arithmetic op left right :: rest, _, h =>
      resolvesSpliced_single (by simp) (resolves_of_resolve bindings (.arithmetic op left right))
        (resolvesSpliced_of_resolveSpliced bindings tag rest) h

theorem resolvesChain_of_resolveChain (bindings : Bindings) :
    ∀ (es : List Expr) {left : Term} {tags : List String} {ts : List Term},
      tags.length = es.length → resolveChain bindings left tags es = .ok ts →
      ResolvesChain bindings left tags es ts
  | [], left, tags, ts, hlength, h => by
      cases tags with
      | nil =>
          rw [resolveChain] at h
          cases h
          · exact .nil left
          · simp
      | cons tag tags => simp at hlength
  | e :: es, left, tags, ts, hlength, h => by
      cases tags with
      | nil => simp at hlength
      | cons tag tags =>
          rw [resolveChain] at h
          obtain ⟨operator, hoperator, h⟩ := exists_of_bind_eq_ok h
          obtain ⟨right, hright, h⟩ := exists_of_bind_eq_ok h
          obtain ⟨u, hu, h⟩ := exists_of_bind_eq_ok h
          obtain ⟨others, hothers, h⟩ := exists_of_bind_eq_ok h
          cases h
          exact .cons (lookup_of_ofTag hoperator) (resolves_of_resolve bindings e hright) hu
            (resolvesChain_of_resolveChain bindings es (by simpa using hlength) hothers)

end

end Expr

/-! ## Variables of resolved terms -/

/-- Each name stands for a variable of that name. -/
def Bindings.Keyed (bindings : Bindings) : Prop :=
  ∀ name x, bindings.find? name = some x → x.name = name

/-- The variable is the one that its name stands for. -/
def Bindings.Binds (bindings : Bindings) (x : Var) : Prop :=
  bindings.find? x.name = some x

/-- The variable is one that some name stands for. -/
def Bindings.Contains (bindings : Bindings) (x : Var) : Prop :=
  ∃ name, bindings.find? name = some x

theorem Bindings.Keyed.binds {bindings : Bindings} (h : bindings.Keyed) {x : Var}
    (hx : bindings.Contains x) : bindings.Binds x := by
  obtain ⟨name, hfind⟩ := hx
  rw [Binds, h name x hfind, hfind]

/-- The variables of the term are among the given ones. -/
def Term.Over (among : Var → Prop) (t : Term) : Prop :=
  ∀ x ∈ t.occurrences, among x

theorem Term.Over.of_operands {among : Var → Prop} {operands : List Term} {t : Term}
    (h : t.occurrences = operands.flatMap Term.occurrences)
    (hoperands : ∀ u ∈ operands, u.Over among) : t.Over among := by
  intro x hx
  rw [h] at hx
  obtain ⟨u, hu, hxu⟩ := List.mem_flatMap.mp hx
  exact hoperands u hu x hxu

theorem Term.Over.truthy {among : Var → Prop} {t : Term} (h : t.Over among) :
    t.truthy.Over among := by
  unfold Over
  rw [t.occurrences_truthy]
  exact h

namespace Expr

mutual

/-- The variables of a resolved term are ones that names stand for. -/
theorem Resolves.contained {bindings : Bindings} :
    ∀ {e : Expr} {t : Term}, Resolves bindings e t → t.Over bindings.Contains
  | _, _, @Resolves.identifier _ name x hfind => by
      intro y hy
      simp only [Term.occurrences, List.mem_singleton] at hy
      exact ⟨name, hy ▸ hfind⟩
  | _, _, .literal _ => by simp [Term.Over, Term.occurrences]
  | _, _, .unary _ he happly => by
      refine .of_operands (Operator.occurrences_of_applyLogical happly) ?_
      simpa using he.contained
  | _, _, .connective _ hes happly =>
      .of_operands (Operator.occurrences_of_applyLogical happly) hes.contained
  | _, _, .comparison hleft hchain =>
      hchain.contained hleft.contained _ List.mem_cons_self
  | _, _, .chain hleft hchain => by
      refine .of_operands ?_ (hchain.contained hleft.contained)
      rw [Term.occurrences, Term.occurrencesAll_eq]
  | _, _, .arithmetic _ hleft hright happly => by
      refine .of_operands (Operator.occurrences_of_apply happly) ?_
      simpa using ⟨hleft.contained, hright.contained⟩

theorem ResolvesSpliced.contained {bindings : Bindings} :
    ∀ {tag : String} {es : List Expr} {ts : List Term}, ResolvesSpliced bindings tag es ts →
      ∀ t ∈ ts, t.Over bindings.Contains
  | _, _, _, .nil _ => by simp
  | _, _, _, .splice hes hrest => List.forall_mem_append.mpr ⟨hes.contained, hrest.contained⟩
  | _, _, _, .cons he hrest => List.forall_mem_cons.mpr ⟨he.contained, hrest.contained⟩

theorem ResolvesChain.contained {bindings : Bindings} :
    ∀ {left : Term} {tags : List String} {es : List Expr} {ts : List Term},
      ResolvesChain bindings left tags es ts → left.Over bindings.Contains →
        ∀ t ∈ ts, t.Over bindings.Contains
  | _, _, _, _, .nil _, _ => by simp
  | _, _, _, _, .cons _ he happly hrest, hleft => by
      refine List.forall_mem_cons.mpr ⟨?_, hrest.contained he.contained⟩
      refine .of_operands (Operator.occurrences_of_apply happly) ?_
      simpa using ⟨hleft, he.contained⟩

end

/-- Where names stand for variables of these names, the variables of a resolved term are bound. -/
theorem Resolves.bound {bindings : Bindings} (hkeyed : bindings.Keyed) {e : Expr} {t : Term}
    (h : Resolves bindings e t) : t.Over bindings.Binds :=
  fun x hx => hkeyed.binds (h.contained x hx)

end Expr

end BranchWitness
