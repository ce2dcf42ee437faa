import BranchWitness.Proofs.Agreement

/-!
# Splicing nested connectives

A connective takes the operands of a nested connective with the very same tag in the place of that
connective.  For a conjunction and for a disjunction this keeps the value.  For the operators with
one operand it does not.  The operand of a repeated negation is negated once, however often the
negation is repeated.

The two readings are compared in `eval_resolve_connective`.  Its second side is the resolution that
takes the nodes one by one (`resolveUnspliced`).

## Strategy

Both sides are resolved along the same expression, and at each node their terms agree
(`Term.Agrees`).  Operators keep agreement, so it remains to splice at one node.

* **Conjunctions and disjunctions.**  The joined value of the spliced operands is that of the values
  of the nested nodes (`exists_joined`), since operands can be joined in groups.
* **Negations.**  A repeated negation resolves to the same term as the inner one, and its other
  reading has one negation more.  So they agree up to a negation, by parity (`Expr.flips`).
* **Comparisons and arithmetic** take two operands.  A nested node would bring in a third, and the
  node would not resolve (`nests_eq_false_of_length`).
-/

namespace BranchWitness

namespace Expr

/-! ## Resolving the nodes one by one -/

mutual

/-- The term that an expression stands for when no connective is spliced into another one. -/
def resolveUnspliced (bindings : Bindings) : Expr → Except Error Term
  | identifier name =>
      match bindings.find? name with
      | some x => .ok (.var x)
      | none => .error (.unboundVariable name)
  | literal value => .ok (.const value)
  | unary op operand => do
      let operator ← Operator.ofTag op
      let t ← resolveUnspliced bindings operand
      operator.applyLogical [t]
  | connective op operands => do
      let operator ← Operator.ofTag op
      let ts ← resolveEach bindings operands
      operator.applyLogical ts
  | comparison left ops comparators =>
      if ops.isEmpty ∨ ops.length ≠ comparators.length then
        .error ((Refusal.chainLength ops.length comparators.length).error "Compare")
      else do
        let first ← resolveUnspliced bindings left
        match ← resolveLinks bindings first ops comparators with
        | [t] => return t
        | ts => return .and ts
  | arithmetic op left right => do
      let operator ← Operator.ofTag op
      let l ← resolveUnspliced bindings left
      let r ← resolveUnspliced bindings right
      operator.apply [l, r]

/-- The operands of a connective, each of them one term. -/
def resolveEach (bindings : Bindings) : List Expr → Except Error (List Term)
  | [] => .ok []
  | e :: rest => do
      let t ← resolveUnspliced bindings e
      let others ← resolveEach bindings rest
      return t :: others

/-- The comparisons of a chain. -/
def resolveLinks (bindings : Bindings) (left : Term) :
    List String → List Expr → Except Error (List Term)
  | op :: ops, e :: rest => do
      let operator ← Operator.ofTag op
      let right ← resolveUnspliced bindings e
      let t ← operator.apply [left, right]
      let others ← resolveLinks bindings right ops rest
      return t :: others
  | _, _ => .ok []

end

/-- Every connective has as many operands as its operator accepts. -/
inductive Counted : Expr → Prop
  | identifier (name : String) : Counted (.identifier name)
  | literal (v : Value) : Counted (.literal v)
  | unary {tag : String} {e : Expr} (h : Counted e) : Counted (.unary tag e)
  | connective {tag : String} {es : List Expr}
      (hcount : ∀ operator, Operator.tags.lookup tag = some operator →
        operator.accepts es.length = true)
      (h : ∀ e ∈ es, Counted e) : Counted (.connective tag es)
  | comparison {left : Expr} {tags : List String} {es : List Expr} (hleft : Counted left)
      (h : ∀ e ∈ es, Counted e) : Counted (.comparison left tags es)
  | arithmetic {tag : String} {left right : Expr} (hleft : Counted left) (hright : Counted right) :
      Counted (.arithmetic tag left right)

/-! ## Repeated negations -/

/-- Whether the expression is a connective with the given tag. -/
def nests (tag : String) : Expr → Bool
  | connective op _ => op == tag
  | _ => false

mutual

/-- How many connectives with the given tag stand directly inside one another, from the expression
on, each as the only operand of the one around it. -/
def repeats (tag : String) : Expr → Nat
  | connective op operands => if op = tag then repeatsIn tag operands + 1 else 0
  | _ => 0

/-- The number of repeats in the only operand of a connective. -/
def repeatsIn (tag : String) : List Expr → Nat
  | [e] => repeats tag e
  | _ => 0

end

/-- Whether the expression is a negation that is repeated an odd number of times. -/
def flips : Expr → Bool
  | connective tag operands =>
      decide (Operator.tags.lookup tag = some .not) && repeatsIn tag operands % 2 == 1
  | _ => false

/-- Inside the expression no negation is repeated an odd number of times, and no change of sign is
repeated at all.  The expression itself may be such a negation. -/
inductive Spliceable : Expr → Prop
  | identifier (name : String) : Spliceable (.identifier name)
  | literal (v : Value) : Spliceable (.literal v)
  | unary {tag : String} {e : Expr} (h : Spliceable e) (heven : e.flips = false) :
      Spliceable (.unary tag e)
  | connective {tag : String} {es : List Expr}
      (hsign : Operator.tags.lookup tag = some .negate → ∀ e ∈ es, e.nests tag = false)
      (h : ∀ e ∈ es, Spliceable e)
      (heven : ∀ e ∈ es, e.nests tag = true ∨ e.flips = false) : Spliceable (.connective tag es)
  | comparison {left : Expr} {tags : List String} {es : List Expr} (hleft : Spliceable left)
      (hlefteven : left.flips = false) (h : ∀ e ∈ es, Spliceable e)
      (heven : ∀ e ∈ es, e.flips = false) : Spliceable (.comparison left tags es)
  | arithmetic {tag : String} {left right : Expr} (hleft : Spliceable left)
      (hlefteven : left.flips = false) (hright : Spliceable right)
      (hrighteven : right.flips = false) : Spliceable (.arithmetic tag left right)

section Nodes

variable {bindings : Bindings} {tag : String} {operator : Operator} {e : Expr} {es : List Expr}
  {ts : List Term} {t : Term}

theorem exists_of_nests (h : e.nests tag = true) : ∃ es, e = .connective tag es := by
  cases e with
  | connective op es =>
      obtain rfl : op = tag := by simpa [nests] using h
      exact ⟨es, rfl⟩
  | _ => cases h

theorem repeats_of_nests (h : e.nests tag = false) : e.repeats tag = 0 := by
  cases e with
  | connective op es =>
      have hop : op ≠ tag := by simpa [nests] using h
      rw [repeats, if_neg hop]
  | _ => rfl

theorem flips_of_unnested (h : ∀ e ∈ es, e.nests tag = false) :
    (connective tag es).flips = false := by
  have hrepeats : repeatsIn tag es = 0 := by
    unfold repeatsIn
    split
    · exact repeats_of_nests (h _ List.mem_cons_self)
    · rfl
  simp [flips, hrepeats]

theorem flips_of_ne_not (htag : Operator.tags.lookup tag = some operator) (h : operator ≠ .not)
    (es : List Expr) : (connective tag es).flips = false := by
  simp [flips, htag, h]

/-- One negation more changes the parity. -/
theorem flips_cons (htag : Operator.tags.lookup tag = some .not) (es : List Expr) :
    (connective tag [connective tag es]).flips = !(connective tag es).flips := by
  have hrepeats : repeatsIn tag [connective tag es] = repeatsIn tag es + 1 := by
    rw [repeatsIn, repeats, if_pos rfl]
  simp only [flips, htag, hrepeats]
  grind

theorem resolve_connective (htag : Operator.tags.lookup tag = some operator)
    (hts : resolveSpliced bindings tag es = .ok ts) (h : operator.applyLogical ts = .ok t) :
    (connective tag es).resolve bindings = .ok t := by
  rw [resolve, ofTag_of_lookup htag, hts]
  exact h

theorem resolve_connective_eq_ok (h : (connective tag es).resolve bindings = .ok t) :
    ∃ operator ts, Operator.tags.lookup tag = some operator ∧
      resolveSpliced bindings tag es = .ok ts ∧ operator.applyLogical ts = .ok t := by
  rw [resolve] at h
  obtain ⟨operator, hoperator, h⟩ := exists_of_bind_eq_ok h
  obtain ⟨ts, hts, h⟩ := exists_of_bind_eq_ok h
  exact ⟨operator, ts, lookup_of_ofTag hoperator, hts, h⟩

theorem resolveUnspliced_connective {us : List Term} {u : Term}
    (htag : Operator.tags.lookup tag = some operator) (hus : resolveEach bindings es = .ok us)
    (h : operator.applyLogical us = .ok u) :
    (connective tag es).resolveUnspliced bindings = .ok u := by
  rw [resolveUnspliced, ofTag_of_lookup htag, hus]
  exact h

/-- What one operand gives to the list of operands. -/
theorem resolveSpliced_cons_eq_ok {rest : List Expr}
    (h : resolveSpliced bindings tag (e :: rest) = .ok ts) :
    ∃ first others, resolveSpliced bindings tag rest = .ok others ∧ ts = first ++ others ∧
      ((∃ es, e = .connective tag es ∧ resolveSpliced bindings tag es = .ok first) ∨
        e.nests tag = false ∧ ∃ t, e.resolve bindings = .ok t ∧ first = [t]) := by
  cases e with
  | connective op es =>
      rw [resolveSpliced] at h
      split at h
      · -- the operands of a node with the same tag stand in its place
        rename_i hop
        subst hop
        obtain ⟨first, hfirst, h⟩ := exists_of_bind_eq_ok h
        obtain ⟨others, hothers, h⟩ := exists_of_bind_eq_ok h
        cases h
        exact ⟨first, others, hothers, rfl, .inl ⟨es, rfl, hfirst⟩⟩
      · -- any other connective is one operand, as is everything else
        rename_i hop
        obtain ⟨first, hfirst, h⟩ := exists_of_bind_eq_ok h
        obtain ⟨others, hothers, h⟩ := exists_of_bind_eq_ok h
        cases h
        cases ht : resolve bindings (.connective op es) with
        | error _ => simp [ht, Except.map] at hfirst
        | ok t =>
            simp only [ht, Except.map, Except.ok.injEq] at hfirst
            exact ⟨first, others, hothers, rfl, .inr ⟨by simp [nests, hop], t, rfl, hfirst.symm⟩⟩
  | _ =>
      rw [resolveSpliced] at h
      · obtain ⟨t, ht, h⟩ := exists_of_bind_eq_ok h
        obtain ⟨others, hothers, h⟩ := exists_of_bind_eq_ok h
        cases h
        exact ⟨[t], others, hothers, rfl, .inr ⟨rfl, t, ht, rfl⟩⟩
      · simp

/-! ## How many operands there are after splicing -/

/-- Where nested nodes have operands, splicing does not take any away. -/
theorem length_le_spliced
    (h : ∀ es' first, connective tag es' ∈ es → resolveSpliced bindings tag es' = .ok first →
      1 ≤ first.length)
    (hts : resolveSpliced bindings tag es = .ok ts) : es.length ≤ ts.length := by
  induction es generalizing ts with
  | nil => exact Nat.zero_le _
  | cons e rest ih =>
      obtain ⟨first, others, hothers, rfl, hfirst⟩ := resolveSpliced_cons_eq_ok hts
      have hrest := ih (fun es' first hmem => h es' first (List.mem_cons_of_mem _ hmem)) hothers
      have hone : 1 ≤ first.length := by
        obtain ⟨es', rfl, hspliced⟩ | ⟨-, t, -, rfl⟩ := hfirst
        · exact h es' first List.mem_cons_self hspliced
        · exact Nat.le_refl 1
      rw [List.length_cons, List.length_append]
      omega

theorem Counted.accepts (h : (Expr.connective tag es).Counted)
    (htag : Operator.tags.lookup tag = some operator) : operator.accepts es.length = true := by
  cases h with
  | connective hcount _ => exact hcount operator htag

theorem Counted.of_lookup (htag : Operator.tags.lookup tag = some operator)
    (hcount : operator.accepts es.length = true) (h : ∀ e ∈ es, e.Counted) :
    (Expr.connective tag es).Counted := by
  refine .connective (fun operator' htag' => ?_) h
  obtain rfl : operator' = operator := Option.some.inj (htag'.symm.trans htag)
  exact hcount

theorem Counted.operand (h : (Expr.connective tag es).Counted) (he : e ∈ es) : e.Counted := by
  cases h with
  | connective _ h => exact h e he

theorem Counted.length_le (htag : Operator.tags.lookup tag = some operator) (h : e.Counted)
    (he : e = .connective tag es) (hts : resolveSpliced bindings tag es = .ok ts) :
    es.length ≤ ts.length := by
  induction h generalizing es ts with
  | connective _ h ih =>
      cases he
      refine length_le_spliced (fun inner first hmem hfirst => ?_) hts
      -- a nested node has an operand, and by induction splicing inside it loses none
      have hone := Operator.one_le_of_accepts ((h _ hmem).accepts htag)
      exact Nat.le_trans hone (ih _ hmem rfl hfirst)
  | _ => cases he

/-- Operands remain at every node. -/
theorem Counted.spliced_ne_nil (htag : Operator.tags.lookup tag = some operator)
    (h : (Expr.connective tag es).Counted) (hts : resolveSpliced bindings tag es = .ok ts) :
    ts ≠ [] := by
  rintro rfl
  have hone := Operator.one_le_of_accepts (h.accepts htag)
  exact absurd (Nat.le_trans hone (h.length_le htag rfl hts)) (by simp)

/-- Where nested nodes have two operands and more, and there are no more operands after splicing
than before, there is no nested node. -/
theorem nests_eq_false_of_length
    (h : ∀ es' first, connective tag es' ∈ es → resolveSpliced bindings tag es' = .ok first →
      2 ≤ first.length)
    (hts : resolveSpliced bindings tag es = .ok ts) (hlength : ts.length ≤ es.length) :
    ∀ e ∈ es, e.nests tag = false := by
  induction es generalizing ts with
  | nil => simp
  | cons e rest ih =>
      obtain ⟨first, others, hothers, rfl, hfirst⟩ := resolveSpliced_cons_eq_ok hts
      have h' := fun es' first hmem => h es' first (List.mem_cons_of_mem e hmem)
      have hrest := length_le_spliced
        (fun es' first hmem hspliced => Nat.le_of_succ_le (h' es' first hmem hspliced)) hothers
      rw [List.length_cons, List.length_append] at hlength
      obtain ⟨es', rfl, hspliced⟩ | ⟨hnests, t, -, rfl⟩ := hfirst
      · have htwo := h es' first List.mem_cons_self hspliced
        omega
      · rw [List.length_singleton] at hlength
        exact List.forall_mem_cons.mpr ⟨hnests, ih h' hothers (by omega)⟩

/-- An operator with two operands has no nested node with its tag. -/
theorem Counted.unnested_of_two (htag : Operator.tags.lookup tag = some operator)
    (htwo : ∀ count, operator.accepts count = true → count = 2)
    (h : (Expr.connective tag es).Counted) (hts : resolveSpliced bindings tag es = .ok ts)
    (ht : operator.applyLogical ts = .ok t) : ∀ e ∈ es, e.nests tag = false := by
  have hlength : es.length = 2 := htwo _ (h.accepts htag)
  refine nests_eq_false_of_length (fun inner first hmem hfirst => ?_) hts ?_
  · have hinner := h.operand hmem
    rw [← htwo _ (hinner.accepts htag)]
    exact hinner.length_le htag rfl hfirst
  · have hspliced := htwo _ (Operator.accepts_of_applyLogical ht (h.spliced_ne_nil htag hts))
    exact Nat.le_of_eq (hspliced.trans hlength.symm)

end Nodes

/-! ## Comparing the two readings -/

/-- Resolving the nodes one by one gives a term that agrees with the spliced one. -/
def Keeps (bindings : Bindings) (e : Expr) : Prop :=
  ∀ t, e.resolve bindings = .ok t → ∃ u, e.resolveUnspliced bindings = .ok u ∧ t.Agrees u

section Keeping

variable {bindings : Bindings} {tag : String} {operator : Operator} {es : List Expr}
  {ts : List Term} {t : Term}

theorem exists_each_of_unnested (hnests : ∀ e ∈ es, e.nests tag = false)
    (hkeeps : ∀ e ∈ es, e.Keeps bindings) (hts : resolveSpliced bindings tag es = .ok ts) :
    ∃ us, resolveEach bindings es = .ok us ∧ List.Forall₂ Term.Agrees ts us := by
  induction es generalizing ts with
  | nil =>
      cases hts
      exact ⟨[], rfl, .nil⟩
  | cons e rest ih =>
      obtain ⟨hnest, hnests⟩ := List.forall_mem_cons.mp hnests
      obtain ⟨hkeep, hkeeps⟩ := List.forall_mem_cons.mp hkeeps
      obtain ⟨first, others, hothers, rfl, hfirst⟩ := resolveSpliced_cons_eq_ok hts
      obtain ⟨us, hus, hagrees⟩ := ih hnests hkeeps hothers
      obtain ⟨es', rfl, -⟩ | ⟨-, t, ht, rfl⟩ := hfirst
      · simp [nests] at hnest
      · obtain ⟨u, hu, hagree⟩ := hkeep t ht
        exact ⟨u :: us, by rw [resolveEach, hu, hus]; rfl, .cons hagree hagrees⟩

theorem keeps_of_unnested (hnests : ∀ e ∈ es, e.nests tag = false)
    (hkeeps : ∀ e ∈ es, e.Keeps bindings) : (connective tag es).Keeps bindings := by
  intro t ht
  obtain ⟨operator, ts, htag, hts, happly⟩ := resolve_connective_eq_ok ht
  obtain ⟨us, hus, hagrees⟩ := exists_each_of_unnested hnests hkeeps hts
  obtain ⟨u, hu, hagree⟩ := Operator.applyLogical_agrees hagrees happly
  exact ⟨u, resolveUnspliced_connective htag hus hu, hagree⟩

/-- The spliced operands and the operands one by one are joined to the same value. -/
theorem exists_joined {make : List Term → Term} {deciding : Bool}
    (hjoins : operator.Joins make deciding) (htag : Operator.tags.lookup tag = some operator)
    (hne : ∀ es' first, connective tag es' ∈ es → resolveSpliced bindings tag es' = .ok first →
      first ≠ [])
    (hkeeps : ∀ e ∈ es, e.Keeps bindings) (hts : resolveSpliced bindings tag es = .ok ts) :
    ∃ us, resolveEach bindings es = .ok us ∧ us.length = es.length ∧ ∀ assignment,
      Meaning.joinAll deciding ((ts.map Term.truthy).map (Term.eval assignment)) =
        Meaning.joinAll deciding ((us.map Term.truthy).map (Term.eval assignment)) := by
  induction es generalizing ts with
  | nil =>
      cases hts
      exact ⟨[], rfl, rfl, fun _ => rfl⟩
  | cons e rest ih =>
      obtain ⟨hkeep, hkeeps⟩ := List.forall_mem_cons.mp hkeeps
      obtain ⟨first, others, hothers, rfl, hfirst⟩ := resolveSpliced_cons_eq_ok hts
      obtain ⟨us, hus, hlength, hjoined⟩ :=
        ih (fun es' first hmem => hne es' first (List.mem_cons_of_mem e hmem)) hkeeps hothers
      -- one term stands for the first operands, also where they are those of a nested node
      obtain ⟨u, hu, hvalue⟩ : ∃ u, e.resolveUnspliced bindings = .ok u ∧ ∀ assignment,
          Meaning.joinAll deciding ((first.map Term.truthy).map (Term.eval assignment)) =
            Meaning.joinAll deciding [u.truthy.eval assignment] := by
        obtain ⟨es', rfl, hspliced⟩ | ⟨-, t, ht, rfl⟩ := hfirst
        · have happly := hjoins.applyLogical (hne es' first List.mem_cons_self hspliced)
          obtain ⟨u, hu, hagree⟩ := hkeep _ (resolve_connective htag hspliced happly)
          refine ⟨u, hu, fun assignment => ?_⟩
          rw [Term.truthy_of_bool (hagree.sort ▸ hjoins.sort _), ← hagree.eval, hjoins.eval,
            Meaning.joinAll_joinAll]
        · obtain ⟨u, hu, hagree⟩ := hkeep t ht
          exact ⟨u, hu, fun assignment => by rw [← hagree.truthy.eval]; rfl⟩
      refine ⟨u :: us, by rw [resolveEach, hu, hus]; rfl, by simp [hlength], fun assignment => ?_⟩
      rw [List.map_append, List.map_append, Meaning.joinAll_append, hvalue, hjoined,
        ← Meaning.joinAll_append]
      rfl

theorem keeps_of_joins {make : List Term → Term} {deciding : Bool}
    (hjoins : operator.Joins make deciding) (htag : Operator.tags.lookup tag = some operator)
    (hcounted : (connective tag es).Counted) (hkeeps : ∀ e ∈ es, e.Keeps bindings) :
    (connective tag es).Keeps bindings := by
  intro t ht
  obtain ⟨operator', ts, htag', hts, happly⟩ := resolve_connective_eq_ok ht
  obtain rfl : operator' = operator := Option.some.inj (htag'.symm.trans htag)
  rw [hjoins.applyLogical (hcounted.spliced_ne_nil htag hts)] at happly
  cases happly
  obtain ⟨us, hus, hlength, hjoined⟩ := exists_joined hjoins htag
    (fun _ _ hmem => (hcounted.operand hmem).spliced_ne_nil htag) hkeeps hts
  have husne : us ≠ [] := by
    rintro rfl
    have hone := Operator.one_le_of_accepts (hcounted.accepts htag)
    rw [← hlength] at hone
    cases hone
  refine ⟨make (us.map Term.truthy),
    resolveUnspliced_connective htag hus (hjoins.applyLogical husne), ?_⟩
  exact ⟨by rw [hjoins.sort, hjoins.sort], by rw [hjoins.constant, hjoins.constant],
    fun assignment => by rw [hjoins.eval, hjoins.eval, hjoined]⟩

theorem exists_links {first first' : Term} {tags : List String} (hfirst : first.Agrees first')
    (hkeeps : ∀ e ∈ es, e.Keeps bindings) (hts : resolveChain bindings first tags es = .ok ts) :
    ∃ us, resolveLinks bindings first' tags es = .ok us ∧ List.Forall₂ Term.Agrees ts us := by
  induction es generalizing first first' tags ts with
  | nil =>
      cases tags <;> cases hts <;> exact ⟨[], rfl, .nil⟩
  | cons e rest ih =>
      cases tags with
      | nil =>
          cases hts
          exact ⟨[], rfl, .nil⟩
      | cons op ops =>
          obtain ⟨hkeep, hkeeps⟩ := List.forall_mem_cons.mp hkeeps
          rw [resolveChain] at hts
          obtain ⟨operator, hoperator, hts⟩ := exists_of_bind_eq_ok hts
          obtain ⟨right, hright, hts⟩ := exists_of_bind_eq_ok hts
          obtain ⟨t, ht, hts⟩ := exists_of_bind_eq_ok hts
          obtain ⟨others, hothers, hts⟩ := exists_of_bind_eq_ok hts
          cases hts
          obtain ⟨right', hright', hagree⟩ := hkeep right hright
          obtain ⟨u, hu, hlink⟩ := Operator.apply_agrees (.cons hfirst (.cons hagree .nil)) ht
          obtain ⟨us, hus, hlinks⟩ := ih hagree hkeeps hothers
          refine ⟨u :: us, ?_, .cons hlink hlinks⟩
          simp only [resolveLinks, hoperator, hright', hu, hus, bind, Except.bind, pure,
            Except.pure]

theorem keeps_unary {e : Expr} (h : e.Keeps bindings) : (unary tag e).Keeps bindings := by
  intro t ht
  rw [resolve] at ht
  obtain ⟨operator, hoperator, ht⟩ := exists_of_bind_eq_ok ht
  obtain ⟨a, ha, ht⟩ := exists_of_bind_eq_ok ht
  obtain ⟨b, hb, hagree⟩ := h a ha
  obtain ⟨u, hu, hagrees⟩ := Operator.applyLogical_agrees (.cons hagree .nil) ht
  refine ⟨u, ?_, hagrees⟩
  rw [resolveUnspliced, hoperator, hb]
  exact hu

theorem keeps_arithmetic {left right : Expr} (hleft : left.Keeps bindings)
    (hright : right.Keeps bindings) : (arithmetic tag left right).Keeps bindings := by
  intro t ht
  rw [resolve] at ht
  obtain ⟨operator, hoperator, ht⟩ := exists_of_bind_eq_ok ht
  obtain ⟨l, hl, ht⟩ := exists_of_bind_eq_ok ht
  obtain ⟨r, hr, ht⟩ := exists_of_bind_eq_ok ht
  obtain ⟨l', hl', hagreel⟩ := hleft l hl
  obtain ⟨r', hr', hagreer⟩ := hright r hr
  obtain ⟨u, hu, hagrees⟩ := Operator.apply_agrees (.cons hagreel (.cons hagreer .nil)) ht
  refine ⟨u, ?_, hagrees⟩
  rw [resolveUnspliced, hoperator, hl', hr']
  exact hu

theorem keeps_comparison {left : Expr} {tags : List String} (hleft : left.Keeps bindings)
    (hkeeps : ∀ e ∈ es, e.Keeps bindings) : (comparison left tags es).Keeps bindings := by
  intro t ht
  rw [resolve] at ht
  rw [resolveUnspliced]
  split at ht
  · cases ht
  · rename_i hlength
    rw [if_neg hlength]
    obtain ⟨first, hfirst, ht⟩ := exists_of_bind_eq_ok ht
    obtain ⟨ts, hts, ht⟩ := exists_of_bind_eq_ok ht
    obtain ⟨first', hfirst', hagree⟩ := hleft first hfirst
    obtain ⟨us, hus, hlinks⟩ := exists_links hagree hkeeps hts
    simp only [hfirst', hus, bind, Except.bind]
    -- both readings have one link, or both have several
    split at ht
    · cases ht
      obtain ⟨u, hu, rfl⟩ := Term.Agrees.singleton hlinks
      exact ⟨u, rfl, hu⟩
    · rename_i hsingle
      cases ht
      refine ⟨.and us, ?_, .and hlinks⟩
      split
      · obtain ⟨t, -, rfl⟩ := Term.Agrees.singleton (Term.Agrees.flip hlinks)
        exact absurd rfl (hsingle t)
      · rfl

end Keeping

/-! ## Up to a negation -/

section Parity

variable {bindings : Bindings} {tag : String} {e : Expr} {es : List Expr}

/-- The two readings agree, up to a negation where the expression is a negation that is repeated an
odd number of times. -/
def KeepsParity (bindings : Bindings) (e : Expr) : Prop :=
  ∀ t, e.resolve bindings = .ok t →
    ∃ u, e.resolveUnspliced bindings = .ok u ∧ (if e.flips then Term.not t else t).Agrees u

theorem keepsParity_iff (h : e.flips = false) : e.KeepsParity bindings ↔ e.Keeps bindings := by
  simp only [KeepsParity, Keeps, h, Bool.false_eq_true, if_false]

/-- A negation around a negation with the same tag resolves to the same term, so the parity
changes. -/
theorem keepsParity_not (htag : Operator.tags.lookup tag = some .not)
    (h : (connective tag es).KeepsParity bindings) :
    (connective tag [connective tag es]).KeepsParity bindings := by
  intro t ht
  obtain ⟨operator, ts, htag', hts, happly⟩ := resolve_connective_eq_ok ht
  obtain rfl : operator = .not := Option.some.inj (htag'.symm.trans htag)
  have hinner : resolveSpliced bindings tag es = .ok ts := by
    obtain ⟨first, others, hothers, rfl, hfirst⟩ := resolveSpliced_cons_eq_ok hts
    cases hothers
    rw [List.append_nil]
    obtain ⟨es', hes', hspliced⟩ | ⟨hnests, -⟩ := hfirst
    · cases hes'
      exact hspliced
    · simp [nests] at hnests
  obtain ⟨a, rfl⟩ := Operator.exists_of_applyLogical_not happly
  obtain ⟨u, hu, hagree⟩ := h _ (resolve_connective htag hinner happly)
  have hsort : u.sort = .bool := by
    rw [← hagree.sort]
    split <;> rfl
  refine ⟨.not u, ?_, ?_⟩
  · -- node by node there is one negation more
    have hone := Operator.applyLogical_not u
    rw [Term.truthy_of_bool hsort] at hone
    exact resolveUnspliced_connective htag (by rw [resolveEach, hu]; rfl) hone
  · rw [flips_cons htag]
    cases hflips : (connective tag es).flips with
    | false =>
        rw [hflips] at hagree
        exact hagree.not
    | true =>
        -- the term is a negation itself, and three negations are as good as one
        rw [hflips] at hagree
        refine ⟨rfl, rfl, fun assignment => ?_⟩
        have heval := hagree.eval assignment
        simp only [if_true, Term.eval] at heval
        simp only [Bool.not_true, Bool.false_eq_true, if_false, Term.eval, ← heval,
          Meaning.not_not_not]

theorem keepsParity_connective (hcounted : (connective tag es).Counted)
    (hspliceable : (connective tag es).Spliceable) (h : ∀ e ∈ es, e.KeepsParity bindings) :
    (connective tag es).KeepsParity bindings := by
  cases hspliceable with
  | connective hsign _ heven =>
      have hunnested : (∀ e ∈ es, e.nests tag = false) →
          (connective tag es).KeepsParity bindings := by
        intro hnests
        refine (keepsParity_iff (flips_of_unnested hnests)).mpr (keeps_of_unnested hnests ?_)
        intro e he
        exact (keepsParity_iff ((heven e he).resolve_left (by simp [hnests e he]))).mp (h e he)
      intro t ht
      obtain ⟨operator, ts, htag, hts, happly⟩ := resolve_connective_eq_ok ht
      have hkeeps : operator ≠ .not → ∀ e ∈ es, e.Keeps bindings := by
        intro hnot e he
        refine (keepsParity_iff ?_).mp (h e he)
        rcases heven e he with hnests | hflips
        · -- a nested node has this operator, so it is no negation
          obtain ⟨es', rfl⟩ := exists_of_nests hnests
          exact flips_of_ne_not htag hnot es'
        · exact hflips
      cases operator with
      | and =>
          have hjoined := keeps_of_joins Operator.joins_and htag hcounted (hkeeps (by simp))
          exact (keepsParity_iff (flips_of_ne_not htag (by simp) es)).mpr hjoined t ht
      | or =>
          have hjoined := keeps_of_joins Operator.joins_or htag hcounted (hkeeps (by simp))
          exact (keepsParity_iff (flips_of_ne_not htag (by simp) es)).mpr hjoined t ht
      | not =>
          have hlength : es.length = 1 := by simpa [Operator.accepts] using hcounted.accepts htag
          obtain ⟨e, rfl⟩ := List.length_eq_one_iff.mp hlength
          cases hnests : e.nests tag with
          | true =>
              obtain ⟨es', rfl⟩ := exists_of_nests hnests
              exact keepsParity_not htag (h _ List.mem_cons_self) t ht
          | false => exact hunnested (by simpa using hnests) t ht
      | negate => exact hunnested (hsign htag) t ht
      | cmp _ | arith _ =>
          have htwo := hcounted.unnested_of_two htag (by simp [Operator.accepts]) hts happly
          exact hunnested htwo t ht

/-- **The two readings agree**, by induction on the expression. -/
theorem keepsParity (e : Expr) (hcounted : e.Counted) (hspliceable : e.Spliceable) :
    e.KeepsParity bindings := by
  induction e using Expr.inductionOn with
  | identifier name => exact (keepsParity_iff rfl).mpr fun t ht => ⟨t, ht, .refl t⟩
  | literal v => exact (keepsParity_iff rfl).mpr fun t ht => ⟨t, ht, .refl t⟩
  | unary tag e ih =>
      cases hcounted with
      | unary hcounted =>
      cases hspliceable with
      | unary hspliceable heven =>
      exact (keepsParity_iff rfl).mpr
        (keeps_unary ((keepsParity_iff heven).mp (ih hcounted hspliceable)))
  | connective tag es ih =>
      refine keepsParity_connective hcounted hspliceable fun e he => ih e he ?_ ?_
      · exact hcounted.operand he
      · cases hspliceable with
        | connective _ hspliceable _ => exact hspliceable e he
  | comparison left tags es ihleft ih =>
      cases hcounted with
      | comparison hleft hcounted =>
      cases hspliceable with
      | comparison hleft' hlefteven hspliceable heven =>
      refine (keepsParity_iff rfl).mpr (keeps_comparison ?_ fun e he => ?_)
      · exact (keepsParity_iff hlefteven).mp (ihleft hleft hleft')
      · exact (keepsParity_iff (heven e he)).mp (ih e he (hcounted e he) (hspliceable e he))
  | arithmetic tag left right ihleft ihright =>
      cases hcounted with
      | arithmetic hleft hright =>
      cases hspliceable with
      | arithmetic hleft' hlefteven hright' hrighteven =>
      exact (keepsParity_iff rfl).mpr
        (keeps_arithmetic ((keepsParity_iff hlefteven).mp (ihleft hleft hleft'))
          ((keepsParity_iff hrighteven).mp (ihright hright hright')))

/-- **Splicing and values.**  A connective has the value of its nodes resolved one by one, unless it
is a negation that is repeated an odd number of times.  That has the opposite value. -/
theorem eval_resolve_connective {operator : Operator} {t : Term}
    (htag : Operator.tags.lookup tag = some operator) (hcounted : (connective tag es).Counted)
    (hspliceable : (connective tag es).Spliceable)
    (h : (connective tag es).resolve bindings = .ok t) :
    ∃ u, (connective tag es).resolveUnspliced bindings = .ok u ∧ ∀ assignment,
      t.eval assignment =
        if operator = .not ∧ repeatsIn tag es % 2 = 1 then (u.eval assignment).not
        else u.eval assignment := by
  obtain ⟨u, hu, hagree⟩ := keepsParity (connective tag es) hcounted hspliceable t h
  refine ⟨u, hu, fun assignment => ?_⟩
  rw [← hagree.eval]
  have hflips : (connective tag es).flips = true ↔ operator = .not ∧ repeatsIn tag es % 2 = 1 := by
    simp [flips, htag]
  split
  · rename_i hodd
    obtain ⟨operator', ts, htag', -, happly⟩ := resolve_connective_eq_ok h
    obtain rfl : operator' = .not := Option.some.inj (htag'.symm.trans (hodd.1 ▸ htag))
    obtain ⟨a, rfl⟩ := Operator.exists_of_applyLogical_not happly
    -- a negation is restored by two more
    rw [if_pos (hflips.mpr hodd)]
    simp only [Term.eval, Meaning.not_not_not]
  · rename_i hodd
    rw [if_neg (hflips.not.mpr hodd)]

/-- `x and (x < 3 and not not not x == 2)`: the conjunction inside the conjunction is spliced into
it, and one of the three negations is left. -/
theorem eval_resolve_connective_nested :
    let x : Var := ⟨0, "x", .int⟩
    let bindings : Bindings := NameMap.empty.insert "x" x
    let small : Expr := .comparison (.identifier "x") ["<"] [.literal (.int 3)]
    let two : Expr := .comparison (.identifier "x") ["=="] [.literal (.int 2)]
    let thrice : Expr := .connective "not" [.connective "not" [.connective "not" [two]]]
    let es : List Expr := [.identifier "x", .connective "and" [small, thrice]]
    let nonzero : Term := .cmp .ne (.var x) (.const (.int 0))
    let less : Term := .cmp .lt (.var x) (.const (.int 3))
    let equal : Term := .cmp .eq (.var x) (.const (.int 2))
    let t : Term := .and [nonzero, less, .not equal]
    let u : Term := .and [nonzero, .and [less, .not (.not (.not equal))]]
    ((connective "and" es).Counted ∧ (connective "and" es).Spliceable ∧
      (connective "and" es).resolve bindings = .ok t ∧
      (connective "and" es).resolveUnspliced bindings = .ok u) ∧
      ∀ assignment, t.eval assignment = u.eval assignment := by
  intro x bindings small two thrice es nonzero less equal t u
  have hcounted : (connective "and" es).Counted := by
    have hlink : ∀ op value, (comparison (.identifier "x") [op] [.literal value]).Counted :=
      fun _ _ => .comparison (.identifier _) (by simpa using .literal _)
    have hnot : ∀ {e : Expr}, e.Counted → (connective "not" [e]).Counted := fun h =>
      .of_lookup (show Operator.tags.lookup "not" = some .not from rfl) rfl (by simpa using h)
    have hand : Operator.tags.lookup "and" = some .and := rfl
    have hinner : (connective "and" [small, thrice]).Counted :=
      .of_lookup hand rfl (by simpa using ⟨hlink _ _, hnot (hnot (hnot (hlink _ _)))⟩)
    exact .of_lookup hand rfl (by simpa [es] using ⟨.identifier _, hinner⟩)
  have hspliceable : (connective "and" es).Spliceable := by
    have hlink : ∀ op value, (comparison (.identifier "x") [op] [.literal value]).Spliceable :=
      fun _ _ => .comparison (.identifier _) rfl (by simpa using .literal _) (by simp [flips])
    have hnot : ∀ {e : Expr}, e.Spliceable → e.nests "not" = true ∨ e.flips = false →
        (connective "not" [e]).Spliceable := fun h heven =>
      .connective (fun hsign => absurd hsign (by decide)) (by simpa using h) (by simpa using heven)
    have hthrice : thrice.Spliceable :=
      hnot (hnot (hnot (hlink _ _) (.inr rfl)) (.inl rfl)) (.inl rfl)
    have heven : thrice.flips = false := by simp [thrice, two, flips, repeatsIn, repeats]
    have hinner : (connective "and" [small, thrice]).Spliceable :=
      .connective (fun hsign => absurd hsign (by decide)) (by simpa using ⟨hlink _ _, hthrice⟩)
        (by simpa using ⟨.inr rfl, .inr heven⟩)
    exact .connective (fun hsign => absurd hsign (by decide))
      (by simpa [es] using ⟨.identifier _, hinner⟩) (by simpa [es] using ⟨.inr rfl, .inl rfl⟩)
  have hresolve : (connective "and" es).resolve bindings = .ok t := by rfl
  have hunspliced : (connective "and" es).resolveUnspliced bindings = .ok u := by rfl
  refine ⟨⟨hcounted, hspliceable, hresolve, hunspliced⟩, ?_⟩
  obtain ⟨u', hu', heval⟩ := eval_resolve_connective rfl hcounted hspliceable hresolve
  obtain rfl : u = u' := Except.ok.inj (hunspliced.symm.trans hu')
  simpa using heval

/-- **Double negations.**  A negation around a negation with the same tag is resolved to one
negation, whose value is always the opposite one. -/
theorem eval_resolve_double_negation :
    let a : Var := ⟨0, "a", .bool⟩
    let bindings : Bindings := NameMap.empty.insert "a" a
    let e : Expr := .connective "not" [.connective "not" [.identifier "a"]]
    let t : Term := .not (.var a)
    let u : Term := .not (.not (.var a))
    (e.Counted ∧ e.resolve bindings = .ok t ∧ e.resolveUnspliced bindings = .ok u) ∧
      ∀ (assignment : Assignment) (value : Bool), assignment a.id = some (.bool value) →
        t.eval assignment = .known (.bool !value) ∧ u.eval assignment = .known (.bool value) := by
  intro a bindings e t u
  refine ⟨⟨?_, by rfl, by rfl⟩, fun assignment value h => ?_⟩
  · have hnot : Operator.tags.lookup "not" = some .not := rfl
    have hinner : (connective "not" [identifier "a"]).Counted :=
      .of_lookup hnot rfl (by simpa using .identifier _)
    exact .of_lookup hnot rfl (by simpa using hinner)
  · simp only [t, u, Term.eval, h, Meaning.not, Bool.not_not, and_self]

end Parity

end Expr

end BranchWitness
