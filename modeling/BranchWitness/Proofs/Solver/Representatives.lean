import BranchWitness.Proofs.Solver.Arrangement
import BranchWitness.Proofs.Solver.Minimal

/-!
# The values to try are representatives

The search tries few of the values of an integer or a text variable.  At a point where the variable
has boundaries these few stand for all values of the sort: whatever a value is, one that is tried
gives the same result, error or not, in every comparison with a boundary.  This module states that
for the two kinds of domains by themselves, at any point of any search (`candidates_represent`).

* **Integers.**  A boundary may be the least or the greatest integer, with a neighbour missing, or a
  truth value, which counts as `0` or `1`, or a text, which has no order with an integer.  That
  every integer has its representative is `exists_int_candidate`; no integer is tried twice because
  the integers are tried in a strict order.
* **Texts.**  The known texts (`knownTexts`) are kept in a strict order, and the fresh text behind
  them is not among them.  It is the text at which a search through `s0`, `s1`, … ends that goes on
  as long as the texts are known (`FreshAt`).  No bound is needed for it to end: the numbers up to
  the count of known texts are one more than these, so one of them is new (`exists_freshAt`).
-/

namespace BranchWitness.Solver

/-- The values are representatives for the variable of the slot: they have its sort, none is listed
twice, and if the variable has boundaries, then for every value of its sort there is a listed one
from which no comparison with a boundary tells it. -/
structure Representatives (slot : Slot) (assignment : Assignment) (values : List Value) : Prop where
  sorts : ∀ c ∈ values, c.sort = slot.target.sort
  nodup : values.Nodup
  covers : ∀ bounds, boundaries slot assignment = some bounds →
    ∀ v : Value, v.sort = slot.target.sort → ∃ c ∈ values, ∀ b ∈ bounds, Interchangeable v c b

/-! ## Integers -/

/-- The integers of a problem are in the order of trying, whatever the window is. -/
theorem pairwise_seeds (intWindow : Int64) (conjuncts : List Term) :
    (Seeds.of intWindow.toInt.toNat conjuncts).ints.Pairwise
      fun first second => nearerZero first second = true := by
  refine pairwise_withNeighbours _ (pairwise_window ?_)
  have hle := intWindow.toInt_le
  rw [Int64.toInt_maxValue] at hle ⊢
  omega

theorem representatives_intDomain {seeds : Seeds} (hzero : (0 : Int64) ∈ seeds.ints)
    (hseeds : seeds.ints.Pairwise fun first second => nearerZero first second = true)
    {slot : Slot} (hsort : slot.target.sort = .int) (assignment : Assignment) :
    Representatives slot assignment (intDomain seeds slot assignment).values where
  sorts c hc := (sort_of_mem_intDomain hc).trans hsort.symm
  nodup := by
    refine (pairwise_intDomain hseeds slot assignment).imp fun {v w} hearlier heq => ?_
    subst heq
    exact hearlier.asymm hearlier
  covers bounds hbounds v hv := by
    rw [hsort] at hv
    cases v with
    | int n =>
        obtain ⟨m, hm, hsame, -⟩ := exists_int_candidate hzero bounds n
        refine ⟨.int m, ?_, hsame⟩
        simp only [intDomain, hbounds]
        exact List.mem_map_of_mem hm
    | bool b => cases hv
    | str s => cases hv

/-! ## Texts -/

theorem pairwise_withTexts (texts : List String) {known : List String}
    (h : known.Pairwise fun first second => earlierText first second = true) :
    (withTexts texts known).Pairwise fun first second => earlierText first second = true := by
  have htrans : ∀ a b c, earlierText a b = true → earlierText b c = true →
      earlierText a c = true := fun _ _ _ => ranks_earlierText.trans
  exact pairwise_insertAllAscending htrans _ h

/-- The texts that are known when the variable of the slot gets its value: those of the problem,
and those among the boundaries if there are boundaries. -/
def knownTexts (seeds : Seeds) (slot : Slot) (assignment : Assignment) : List String :=
  withTexts (textsOf ((boundaries slot assignment).getD [])) seeds.texts

theorem values_textDomain (seeds : Seeds) (slot : Slot) (assignment : Assignment) :
    (textDomain seeds slot assignment).values =
      (knownTexts seeds slot assignment ++
        [freshText (knownTexts seeds slot assignment)]).map Value.str := by
  unfold textDomain knownTexts
  cases boundaries slot assignment with
  | none => rfl
  | some bounds => rfl

theorem mem_knownTexts_iff {width : Nat} {conjuncts : List Term} {slot : Slot}
    {assignment : Assignment} {s : String} :
    s ∈ knownTexts (Seeds.of width conjuncts) slot assignment ↔
      s = "" ∨ Value.str s ∈ constantsAll conjuncts ∨
        ∃ bounds, boundaries slot assignment = some bounds ∧ Value.str s ∈ bounds := by
  rw [knownTexts, mem_withTexts_iff, Seeds.of, mem_withTexts_iff, mem_textsOf_iff,
    mem_textsOf_iff, List.mem_singleton]
  cases boundaries slot assignment with
  | none => simp [or_comm]
  | some bounds => simp [or_comm, or_left_comm]

theorem nodup_knownTexts (width : Nat) (conjuncts : List Term) (slot : Slot)
    (assignment : Assignment) : (knownTexts (Seeds.of width conjuncts) slot assignment).Nodup := by
  have hpairwise : (knownTexts (Seeds.of width conjuncts) slot assignment).Pairwise
      fun first second => earlierText first second = true :=
    pairwise_withTexts _ (pairwise_withTexts _ (List.pairwise_singleton _ _))
  refine hpairwise.imp fun {s t} hearlier heq => ?_
  rw [heq, earlierText_irrefl] at hearlier
  cases hearlier

theorem representatives_textDomain {width : Nat} {conjuncts : List Term} {slot : Slot}
    (hsort : slot.target.sort = .str) (assignment : Assignment) :
    Representatives slot assignment
      (textDomain (Seeds.of width conjuncts) slot assignment).values where
  sorts c hc := (sort_of_mem_textDomain hc).trans hsort.symm
  nodup := by
    rw [values_textDomain]
    refine List.Nodup.map (fun _ _ => Value.str.inj) ?_
    rw [← List.concat_eq_append]
    exact (nodup_knownTexts width conjuncts slot assignment).concat (freshText_not_mem _)
  covers bounds hbounds v hv := by
    rw [hsort] at hv
    cases v with
    | str s =>
        obtain ⟨t, ht, hsame⟩ := exists_text_candidate (Seeds.of width conjuncts) bounds s
        refine ⟨.str t, ?_, hsame⟩
        simp only [textDomain, hbounds]
        exact List.mem_map_of_mem ht
    | bool b => cases hv
    | int n => cases hv

/-! ## Both kinds of variables -/

/-- **Representatives.**  At every point of a search, whatever the window, the conjuncts and the
values so far are, the integers to try for an integer variable and the texts to try for a text
variable are representatives.  The texts to try are the known ones, which are the empty text, the
constants and the boundaries, and then a numbered text: the first that is new, with a number that is
at most the number of known texts. -/
theorem candidates_represent (intWindow : Int64) (conjuncts : List Term) (target : Var)
    (assignment : Assignment) :
    let seeds := Seeds.of intWindow.toInt.toNat conjuncts
    let slot := Slot.of conjuncts target
    (target.sort = .int →
      Representatives slot assignment (intDomain seeds slot assignment).values) ∧
    (target.sort = .str →
      Representatives slot assignment (textDomain seeds slot assignment).values ∧
      ∃ known number,
        (textDomain seeds slot assignment).values = (known ++ [s!"s{number}"]).map Value.str ∧
        (∀ s, s ∈ known ↔ s = "" ∨ Value.str s ∈ constantsAll conjuncts ∨
          ∃ bounds, boundaries slot assignment = some bounds ∧ Value.str s ∈ bounds) ∧
        FreshAt known number ∧ number ≤ known.length) := by
  intro seeds slot
  refine ⟨fun hsort => ?_, fun hsort => ⟨representatives_textDomain hsort assignment, ?_⟩⟩
  · exact representatives_intDomain (zero_mem_seeds _ conjuncts)
      (pairwise_seeds intWindow conjuncts) hsort assignment
  · obtain ⟨number, hnumber, hends, hfresh⟩ := exists_freshAt (knownTexts seeds slot assignment)
    refine ⟨knownTexts seeds slot assignment, number, ?_, fun s => mem_knownTexts_iff, hends,
      hnumber⟩
    rw [values_textDomain, hfresh]

/-- The integer `x` faces the greatest and the least integer, each with one neighbour only, a truth
value and a text; the text `y` faces a text and an integer.  The constants of the problem count for
both: `7` has its neighbourhood among the integers for `x`, and `s1` is known when `y` is given a
value, so that the fresh text is `s2`.  The window is negative, which leaves zero in it. -/
theorem candidates_represent_extremes :
    let x : Var := ⟨0, "x", .int⟩
    let y : Var := ⟨1, "y", .str⟩
    let conjuncts : List Term :=
      [.or [.cmp .ge (.var x) (.const (.int Int64.maxValue)),
          .cmp .gt (.const (.int Int64.minValue)) (.var x)],
        .cmp .ne (.var x) (.const (.bool true)), .cmp .ne (.const (.str "s1")) (.var x),
        .not (.cmp .eq (.var y) (.const (.str "s0"))), .cmp .ne (.const (.int 7)) (.var y)]
    let ints : List Int64 :=
      [0, 1, 2, 6, 7, 8, Int64.maxValue - 1, Int64.minValue + 1, Int64.maxValue, Int64.minValue]
    let texts : List String := ["", "s0", "s1", "s2"]
    boundaries (Slot.of conjuncts x) .empty =
        some [.int Int64.maxValue, .int Int64.minValue, .bool true, .str "s1"] ∧
      boundaries (Slot.of conjuncts y) .empty = some [.str "s0", .int 7] ∧
      Representatives (Slot.of conjuncts x) .empty (ints.map .int) ∧
      Representatives (Slot.of conjuncts y) .empty (texts.map .str) ∧
      ∃ known number, texts.map Value.str = (known ++ [s!"s{number}"]).map Value.str ∧
        FreshAt known number ∧ number ≤ known.length := by
  intro x y conjuncts ints texts
  have hints : (intDomain (Seeds.of (-3 : Int64).toInt.toNat conjuncts) (Slot.of conjuncts x)
      .empty).values = ints.map .int := by
    simp only [conjuncts, ints, x, y]
    decide +kernel
  have htexts : (textDomain (Seeds.of (-3 : Int64).toInt.toNat conjuncts) (Slot.of conjuncts y)
      .empty).values = texts.map .str := by
    simp only [conjuncts, texts, x, y]
    decide +kernel
  have hx := (candidates_represent (-3) conjuncts x .empty).1 rfl
  obtain ⟨hy, known, number, hvalues, -, hends, hnumber⟩ :=
    (candidates_represent (-3) conjuncts y .empty).2 rfl
  rw [hints] at hx
  rw [htexts] at hy hvalues
  exact ⟨by decide, by decide, hx, hy, known, number, hvalues, hends, hnumber⟩

end BranchWitness.Solver
