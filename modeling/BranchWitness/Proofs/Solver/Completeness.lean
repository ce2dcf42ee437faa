import BranchWitness.Proofs.Solver.Soundness
import BranchWitness.Proofs.SortSoundness

/-!
# Assertions that the bounded solver decides

The solver may answer that it does not know, but not about *elementary* assertions: any connectives
over truth values and comparisons of a variable with a constant of its sort, where texts are
compared for equality only.  Within its budget it decides them, whatever the window of integers is.

The search does not cease to be exhaustive (`search_elementary`), for three reasons.

* An elementary term is never undefined, as long as the variables have values of their sorts
  (`Term.Elementary.eval`).
* An equation that forces a value forces one of the right sort (`forced_ne_toNothing`).
* Every atom that mentions a variable gives it a boundary (`exists_boundaries`), so that all domains
  are complete.
-/

namespace BranchWitness

/-! ## Elementary terms -/

/-- Connectives over truth values and over comparisons of a variable with a constant of its sort.
Texts are compared for equality only. -/
inductive Term.Elementary : Term → Prop
  | var {x : Var} (hsort : x.sort = .bool) : Elementary (.var x)
  | const (b : Bool) : Elementary (.const (.bool b))
  | cmpVar {op : CmpOp} {x : Var} {v : Value} (hsort : v.sort = x.sort)
      (hop : x.sort = .str → op.isOrdering = false) : Elementary (.cmp op (.var x) (.const v))
  | cmpConst {op : CmpOp} {x : Var} {v : Value} (hsort : v.sort = x.sort)
      (hop : x.sort = .str → op.isOrdering = false) : Elementary (.cmp op (.const v) (.var x))
  | not {t : Term} (h : Elementary t) : Elementary (.not t)
  | and {ts : List Term} (h : ∀ t ∈ ts, Elementary t) : Elementary (.and ts)
  | or {ts : List Term} (h : ∀ t ∈ ts, Elementary t) : Elementary (.or ts)

namespace Term.Elementary

variable {t : Term} {assignment : Assignment}

theorem sort_eq (h : t.Elementary) : t.sort = .bool := by
  cases h with
  | var hsort => rw [Term.sort, hsort]
  | _ => rfl

/-- An elementary term is never undefined. -/
theorem eval (h : t.Elementary) (hsuits : assignment.Suits t.occurrences) :
    (t.eval assignment).Truth := by
  induction h with
  | @var x hsort =>
      have hvar := eval_var_ofSort hsuits
      rwa [hsort, Meaning.ofSort_bool_iff] at hvar
  | const b => exact Meaning.ofSort_bool_iff.mp (eval_const_ofSort (.bool b))
  | @cmpVar op x v hsort _ =>
      have hvar : ((Term.var x).eval assignment).OfSort v.sort := by
        rw [hsort]
        exact eval_var_ofSort hsuits
      rw [Term.eval]
      exact hvar.compare op (eval_const_ofSort v)
  | @cmpConst op x v hsort _ =>
      have hvar : ((Term.var x).eval assignment).OfSort v.sort := by
        rw [hsort]
        exact eval_var_ofSort hsuits
      rw [Term.eval]
      exact (eval_const_ofSort v).compare op hvar
  | not _ ih =>
      rw [Term.eval]
      exact (ih hsuits).not
  | @and ts _ ih =>
      rw [Term.eval, evalAll_eq]
      refine .joinAll false (List.forall_mem_map.mpr fun t ht => ih t ht ?_)
      exact hsuits.subset (occurrences_subset_and ht)
  | @or ts _ ih =>
      rw [Term.eval, evalAll_eq]
      refine .joinAll true (List.forall_mem_map.mpr fun t ht => ih t ht ?_)
      exact hsuits.subset (occurrences_subset_or ht)

/-- The parts of an elementary term that its conjunctions join are elementary. -/
theorem of_mem_conjuncts (h : t.Elementary) : ∀ c ∈ Solver.conjuncts t, c.Elementary := by
  induction h with
  | and h ih =>
      rw [Solver.conjuncts, Solver.conjunctsAll_eq]
      intro c hc
      obtain ⟨t, ht, hct⟩ := List.mem_flatMap.mp hc
      exact ih t ht c hct
  | var hsort => simpa [Solver.conjuncts] using var hsort
  | const b => simpa [Solver.conjuncts] using const b
  | cmpVar hsort hop => simpa [Solver.conjuncts] using cmpVar hsort hop
  | cmpConst hsort hop => simpa [Solver.conjuncts] using cmpConst hsort hop
  | not h _ => simpa [Solver.conjuncts] using not h
  | or h _ => simpa [Solver.conjuncts] using or h

/-- What is so for the atoms of the operands is so for those of a connective. -/
theorem forall_mem_atomsAll {ts : List Term} {P : Term → Prop}
    (h : ∀ t ∈ ts, ∀ atom ∈ Solver.atoms t, P atom ∧ ∀ x ∈ atom.occurrences, x ∈ t.occurrences) :
    ∀ atom ∈ Solver.atomsAll ts,
      P atom ∧ ∀ x ∈ atom.occurrences, x ∈ Term.occurrencesAll ts := by
  intro atom hatom
  rw [Solver.atomsAll_eq] at hatom
  obtain ⟨t, ht, hmem⟩ := List.mem_flatMap.mp hatom
  obtain ⟨hatom, hvars⟩ := h t ht atom hmem
  refine ⟨hatom, fun x hx => ?_⟩
  rw [occurrencesAll_eq]
  exact List.mem_flatMap.mpr ⟨t, ht, hvars x hx⟩

/-- The atoms of an elementary term are elementary comparisons over its variables. -/
theorem of_mem_atoms (h : t.Elementary) : ∀ atom ∈ Solver.atoms t,
    (atom.Elementary ∧ ∃ op left right, atom = .cmp op left right) ∧
      ∀ x ∈ atom.occurrences, x ∈ t.occurrences := by
  induction h with
  | var _ => simp [Solver.atoms]
  | const _ => simp [Solver.atoms]
  | cmpVar hsort hop => simpa [Solver.atoms] using cmpVar hsort hop
  | cmpConst hsort hop => simpa [Solver.atoms] using cmpConst hsort hop
  | not _ ih =>
      rw [Solver.atoms, occurrences]
      exact ih
  | and _ ih =>
      rw [Solver.atoms, occurrences]
      exact forall_mem_atomsAll ih
  | or _ ih =>
      rw [Solver.atoms, occurrences]
      exact forall_mem_atomsAll ih

end Term.Elementary

namespace Solver

/-! ## Complete domains -/

section Domains

variable {conjuncts : List Term} {target : Var} {assignment : Assignment}

/-- In an elementary comparison a constant of the variable's sort faces the variable. -/
theorem facing_elementary {op : CmpOp} {left right : Term} (h : (Term.cmp op left right).Elementary)
    (hmentions : (Term.cmp op left right).mentions target.id = true) :
    ∃ x ∈ (Term.cmp op left right).occurrences, x.id = target.id ∧
      (x.sort = .str → op.isOrdering = false) ∧
      ∃ v, v.sort = x.sort ∧ facing target.id left right = some (.const v) := by
  obtain ⟨x, hx, hid⟩ := Term.mentions_iff.mp hmentions
  refine ⟨x, hx, hid, ?_⟩
  cases h with
  | @cmpVar _ y v hsort hop =>
      obtain rfl : x = y := by simpa [Term.occurrences] using hx
      refine ⟨hop, v, hsort, ?_⟩
      simp [facing, isVariable, hid, Term.mentions, Term.occurrences]
  | @cmpConst _ y v hsort hop =>
      obtain rfl : x = y := by simpa [Term.occurrences] using hx
      refine ⟨hop, v, hsort, ?_⟩
      simp [facing, isVariable, hid, Term.mentions, Term.occurrences]

/-- What elementary equations force is a value of the right sort. -/
theorem forced_ne_toNothing (h : ∀ t ∈ conjuncts, t.Elementary)
    (hsorts : ∀ t ∈ conjuncts, ∀ x ∈ t.occurrences, x.id = target.id → x.sort = target.sort) :
    forced target assignment conjuncts ≠ .toNothing := by
  -- the term that faces the variable in an equation is a constant of its sort
  have hconst : ∀ {left right other : Term}, Term.cmp .eq left right ∈ conjuncts →
      facing target.id left right = some other →
        ∃ v, other.eval assignment = .known v ∧ v.sort = target.sort := by
    intro left right other hmem hfacing
    have hmentions : (Term.cmp .eq left right).mentions target.id = true := by
      rw [Term.mentions_iff]
      obtain ⟨-, ⟨x, rfl, hx, -⟩ | ⟨x, rfl, hx, -⟩⟩ := facing_eq_some hfacing
      · exact ⟨x, by simp [Term.occurrences], hx⟩
      · exact ⟨x, by simp [Term.occurrences], hx⟩
    obtain ⟨x, hx, hid, -, v, hsort, hother⟩ := facing_elementary (h _ hmem) hmentions
    obtain rfl : other = .const v := Option.some_inj.mp (hfacing.symm.trans hother)
    exact ⟨v, by simp [Term.eval], hsort.trans (hsorts _ hmem x hx hid)⟩
  clear h hsorts
  fun_induction forced target assignment conjuncts with
  | case1 => simp
  | case2 left right rest _ ih => exact ih fun hmem => hconst (List.mem_cons_of_mem _ hmem)
  | case3 left right rest other _ _ ih =>
      exact ih fun hmem => hconst (List.mem_cons_of_mem _ hmem)
  | case4 left right rest other hfacing heval =>
      obtain ⟨v, hv, -⟩ := hconst List.mem_cons_self hfacing
      simp [heval] at hv
  | case5 => simp
  | case6 left right rest other hfacing v heval hsort =>
      obtain ⟨w, hw, hwsort⟩ := hconst List.mem_cons_self hfacing
      rw [heval, Meaning.known.injEq] at hw
      exact absurd (hw ▸ hwsort) hsort
  | case7 t rest _ ih => exact ih fun hmem => hconst (List.mem_cons_of_mem _ hmem)

/-- All atoms of elementary conjuncts give the variable a boundary. -/
theorem exists_boundaries (h : ∀ t ∈ conjuncts, t.Elementary)
    (hsorts : ∀ t ∈ conjuncts, ∀ x ∈ t.occurrences, x.id = target.id → x.sort = target.sort) :
    ∃ values, boundaries (Slot.of conjuncts target) assignment = some values := by
  refine exists_mapM_eq_some fun atom hatom => ?_
  simp only [Slot.of, atomsAll_eq, List.mem_filter, List.mem_flatMap] at hatom
  obtain ⟨⟨t, ⟨ht, -⟩, hmem⟩, hmentions⟩ := hatom
  obtain ⟨⟨helementary, op, left, right, rfl⟩, hvars⟩ := (h t ht).of_mem_atoms atom hmem
  obtain ⟨x, hx, hid, hop, v, -, hfacing⟩ := facing_elementary helementary hmentions
  rw [hsorts t ht x (hvars x hx) hid] at hop
  refine ⟨v, ?_⟩
  have hequation : ¬ (target.sort = .str ∧ op.isOrdering = true) := by
    rintro ⟨hstr, hordering⟩
    rw [hop hstr] at hordering
    cases hordering
  rw [boundary, Slot.target_of, if_neg hequation, hfacing]
  simp [Term.eval]

theorem complete_domain (seeds : Seeds) (h : ∀ t ∈ conjuncts, t.Elementary)
    (hsorts : ∀ t ∈ conjuncts, ∀ x ∈ t.occurrences, x.id = target.id → x.sort = target.sort) :
    (domain seeds (Slot.of conjuncts target) assignment).complete = true := by
  unfold domain
  split
  · rfl
  · rename_i hforced
    refine absurd hforced (forced_ne_toNothing (fun t ht => ?_) fun t ht => ?_)
    · exact h t (mem_conjuncts_of.mp ht).1
    · exact hsorts t (mem_conjuncts_of.mp ht).1
  · obtain ⟨values, hvalues⟩ : ∃ values,
        boundaries (Slot.of conjuncts target) assignment = some values :=
      exists_boundaries h hsorts
    split
    · rfl
    · rw [intDomain, hvalues]
    · rw [textDomain, hvalues]

end Domains

/-! ## The search stays exhaustive -/

theorem tryValues_stays {action : Value → Progress → Ending × Progress} {values : List Value}
    (haction : ∀ v ∈ values, ∀ before, before.exhaustive = true →
      (action v before).2.exhaustive = true)
    {before : Progress} (hbefore : before.exhaustive = true) :
    (tryValues action values before).2.exhaustive = true := by
  induction values generalizing before with
  | nil => exact hbefore
  | cons v rest ih =>
      obtain ⟨hv, hrest⟩ := List.forall_mem_cons.mp haction
      unfold tryValues
      split
      · exact hbefore
      · rename_i budget _
        have hlater := hv { before with budget } hbefore
        split
        · rename_i later hattempt
          rw [hattempt] at hlater
          exact ih hrest hlater
        · exact hlater

theorem standing_ne_undefined {assignment : Assignment} {conjuncts : List Term}
    (h : ∀ t ∈ conjuncts, (t.eval assignment).Truth) :
    standing assignment conjuncts ≠ .undefined := by
  fun_induction standing assignment conjuncts with
  | case1 => simp
  | case2 t rest _ ih => exact ih (List.forall_mem_cons.mp h).2
  | case3 t rest heval => exact absurd heval (h t List.mem_cons_self).ne_undefined
  | case4 t rest _ ih => exact ih (List.forall_mem_cons.mp h).2
  | case5 => simp

/-- A search through elementary conjuncts stays exhaustive. -/
theorem search_elementary (seeds : Seeds) {conjuncts : List Term}
    (h : ∀ t ∈ conjuncts, t.Elementary) {vars : List Var}
    (hsorts : ∀ x ∈ vars, ∀ y ∈ conjuncts.flatMap Term.occurrences,
      y.id = x.id → y.sort = x.sort)
    {assignment : Assignment} (hsuits : assignment.Suits (conjuncts.flatMap Term.occurrences))
    {before : Progress} (hbefore : before.exhaustive = true) :
    (search seeds (vars.map (Slot.of conjuncts)) assignment before).2.exhaustive = true := by
  induction vars generalizing assignment before with
  | nil => exact hbefore
  | cons x rest ih =>
      obtain ⟨hx, hrest⟩ := List.forall_mem_cons.mp hsorts
      have hcomplete : (domain seeds (Slot.of conjuncts x) assignment).complete = true :=
        complete_domain seeds h fun t ht y hy => hx y (List.mem_flatMap.mpr ⟨t, ht, hy⟩)
      rw [List.map_cons, search_cons]
      refine tryValues_stays (fun v hv progress hprogress => ?_) ?_
      · have hset : (assignment.set x.id v).Suits (conjuncts.flatMap Term.occurrences) :=
          hsuits.set fun y hy hid => (sort_of_mem_domain hv).trans (hx y hy hid).symm
        unfold attempt
        dsimp only [Slot.target_of]
        split
        · exact ih hrest hset hprogress
        · exact hprogress
        · rename_i hstanding
          refine absurd hstanding (standing_ne_undefined fun t ht => ?_)
          have hmem := (mem_conjuncts_of.mp ht).1
          exact (h t hmem).eval fun y hy => hset y (List.mem_flatMap.mpr ⟨t, hmem, hy⟩)
      · rw [hbefore, hcomplete]
        rfl

/-! ## The answer -/

theorem settleGround_ne_unknown {parts : List Term} (h : ∀ t ∈ parts, t.Elementary)
    (reason : String) : settleGround parts ≠ .error (.unknown reason) := by
  intro hsettle
  obtain ⟨t, ht, hground, ⟨-, hanswer⟩ | ⟨hnone, -⟩⟩ := settleGround_error hsettle
  · cases hanswer
  · -- without variables an elementary term is a truth value
    have hvars : t.occurrences = [] := occurrences_of_isGround hground
    have htruth : (t.eval .empty).Truth := (h t ht).eval (by simp [Assignment.Suits, hvars])
    have hsettled : t.eval .empty ≠ .unknown := Term.eval_ne_unknown (by simp [hvars])
    obtain ⟨b, hb⟩ := htruth.resolve_left hsettled
    exact hnone (.bool b) hb

theorem check_ne_unknown (limits : Limits) {assertions : List Term}
    (h : ∀ t ∈ assertions, t.Elementary)
    (hsorts : OneSort (assertions.flatMap Term.occurrences)) (reason : String) :
    check limits assertions ≠ .unknown reason := by
  have hparts : ∀ t ∈ conjunctsAll assertions, t.Elementary := by
    intro c hc
    rw [conjunctsAll_eq] at hc
    obtain ⟨t, ht, hct⟩ := List.mem_flatMap.mp hc
    exact (h t ht).of_mem_conjuncts c hct
  have hfind : (conjunctsAll assertions).find? (fun t => t.sort ≠ .bool) = none := by
    refine List.find?_eq_none.mpr fun t ht => ?_
    simp [(hparts t ht).sort_eq]
  unfold check
  dsimp only
  rw [hfind]
  cases hsettle : settleGround (conjunctsAll assertions) with
  | error answer =>
      intro hanswer
      exact settleGround_ne_unknown hparts reason (hsettle.trans (congrArg Except.error hanswer))
  | ok symbolic =>
      have hmem := mem_occurrences_settled hsettle
      have hvars : ∀ x ∈ variablesOf symbolic, ∀ y ∈ symbolic.flatMap Term.occurrences,
          y.id = x.id → y.sort = x.sort := by
        intro x hx y hy hid
        have hoccurs := mem_occurrences_of_mem_variablesOf hx
        exact hsorts y ((hmem y).mpr hy) x ((hmem x).mpr hoccurs) hid
      have hempty : Assignment.empty.Suits (symbolic.flatMap Term.occurrences) :=
        fun _ _ _ hnone => by cases hnone
      have hstays : (search (Seeds.of limits.width symbolic)
          ((variablesOf symbolic).map (Slot.of symbolic)) .empty
            ⟨limits.nodes, true⟩).2.exhaustive = true :=
        search_elementary _ (fun t ht => hparts t ((settleGround_ok hsettle).1 t ht).1) hvars
          hempty rfl
      dsimp only [solve]
      split
      · simp
      · simp
      · rename_i progress hsearch
        rw [hsearch] at hstays
        rw [if_pos hstays]
        simp

/-- Some assignment with values of the right sorts makes all assertions true. -/
def Satisfiable (assertions : List Term) : Prop :=
  ∃ assignment : Assignment, Respects assignment (Term.occurrencesAll assertions) ∧
    ∀ t ∈ assertions, t.Holds assignment

theorem satisfiable_of_sat {limits : Limits} {assertions : List Term} {model : Model}
    (hsorts : OneSort (assertions.flatMap Term.occurrences))
    (h : check limits assertions = .sat model) : Satisfiable assertions := by
  obtain ⟨symbolic, hsettle, hsolve⟩ := check_eq_sat h
  obtain ⟨found, progress, hsearch, -⟩ := exists_found_of_solve hsolve
  rw [Satisfiable, Term.occurrencesAll_eq]
  exact ⟨found, solves_assertions_of_found hsorts hsettle hsearch⟩

theorem not_satisfiable_of_unsat {limits : Limits} {assertions : List Term}
    (h : check limits assertions = .unsat) : ¬ Satisfiable assertions := by
  rintro ⟨assignment, hrespects, hholds⟩
  exact not_holds_of_unsat h hrespects hholds

/-- **Elementary assertions are decided.**  The solver never answers that it does not know, and
unless it runs out of budget it gives a model exactly if there is a solution, and says that there is
none exactly if there is none. -/
theorem check_decides_elementary (limits : Limits) (assertions : List Term)
    (h : ∀ t ∈ assertions, t.Elementary) (hsorts : OneSort (Term.occurrencesAll assertions)) :
    (∀ reason, check limits assertions ≠ .unknown reason) ∧
      (check limits assertions ≠ .timeout →
        ((∃ model, check limits assertions = .sat model) ↔ Satisfiable assertions) ∧
          (check limits assertions = .unsat ↔ ¬ Satisfiable assertions)) := by
  rw [Term.occurrencesAll_eq] at hsorts
  have hknows := check_ne_unknown limits h hsorts
  refine ⟨hknows, fun htime => ?_⟩
  cases hcheck : check limits assertions with
  | sat model =>
      have hsat := satisfiable_of_sat hsorts hcheck
      exact ⟨iff_of_true ⟨model, rfl⟩ hsat, iff_of_false (by simp) fun hnot => hnot hsat⟩
  | unsat =>
      have hunsat := not_satisfiable_of_unsat hcheck
      exact ⟨iff_of_false (by simp) hunsat, iff_of_true rfl hunsat⟩
  | timeout => exact absurd hcheck htime
  | unknown reason => exact absurd hcheck (hknows reason)

/-- Variables of all three sorts, with constants on both sides.  Where `x` is above `2`, `s` is
`"a"` and `b` is false, none of `2 > x`, `"a" ≠ s` and the negation of `b < true` holds. -/
theorem check_decides_elementary_mixed :
    let x : Var := ⟨0, "x", .int⟩
    let s : Var := ⟨1, "s", .str⟩
    let b : Var := ⟨2, "b", .bool⟩
    let assertions : List Term :=
      [.and [.cmp .gt (.var x) (.const (.int 2)), .cmp .eq (.var s) (.const (.str "a"))],
        .or [.cmp .gt (.const (.int 2)) (.var x), .cmp .ne (.const (.str "a")) (.var s),
          .not (.cmp .lt (.var b) (.const (.bool true)))],
        .not (.var b)]
    check ⟨100, 1⟩ assertions = .unsat ∧ ¬ Satisfiable assertions := by
  refine ⟨rfl, ((check_decides_elementary ⟨100, 1⟩ _ ?_ ?_).2 ?_).2.mp rfl⟩
  · simp only [List.forall_mem_cons]
    refine ⟨.and ?_, .or ?_, .not (.var rfl), by simp⟩
    · simp only [List.forall_mem_cons]
      exact ⟨.cmpVar rfl (by decide), .cmpVar rfl (by decide), by simp⟩
    · simp only [List.forall_mem_cons]
      exact ⟨.cmpConst rfl (by decide), .cmpConst rfl (by decide),
        .not (.cmpVar rfl (by decide)), by simp⟩
  · unfold OneSort
    decide
  · intro htime
    exact absurd (show Answer.unsat = .timeout from htime) (by simp)

end Solver

end BranchWitness
