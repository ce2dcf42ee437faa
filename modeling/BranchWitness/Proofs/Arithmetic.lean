import BranchWitness.Value
import Mathlib.Algebra.Group.Int.Defs
import Mathlib.Algebra.Group.Nat.Defs

/-!
# Arithmetic on values is exact

An operator on two values gives the mathematical result or fails, and it is known beforehand which
of the two it does.  The operands decide what the operator means:

```text
text, text        +  joins, within 2 ^ 20 bytes
text, number      *  repeats, within 2 ^ 20 bytes, in either order
number, number    all five, within 64 bits
```

and every other combination fails.  A truth value is a number here (`Value.Counts`).

For sums, differences and products "within 64 bits" speaks about the result (`Representable`).  For
quotients and remainders it can be read off the operands: the quotient of two 64-bit integers is one
again, but for that of the least integer by `-1` (`representable_ediv_iff`).  The remainder would
always be one, and is refused together with the quotient.
-/

namespace BranchWitness

/-! ## 64-bit integers -/

/-- The integer is a 64-bit one. -/
def Representable (n : Int) : Prop :=
  -(2 ^ 63) ≤ n ∧ n < 2 ^ 63

theorem representable_toInt (n : Int64) : Representable n.toInt :=
  ⟨n.le_toInt, n.toInt_lt⟩

theorem checked_eq_some_iff {n : Int} {m : Int64} : checked n = some m ↔ m.toInt = n := by
  unfold checked
  split
  · rename_i hrange
    rw [Int64.toInt_minValue, Int64.toInt_maxValue] at hrange
    have hofInt : (Int64.ofInt n).toInt = n :=
      Int64.toInt_ofInt_of_le hrange.1 (Int.lt_of_le_sub_one hrange.2)
    constructor
    · intro h
      cases h
      exact hofInt
    · intro h
      rw [Option.some_inj, ← Int64.toInt_inj, hofInt, h]
  · rename_i hrange
    refine iff_of_false (by simp) fun h => hrange ?_
    exact h ▸ ⟨m.minValue_le_toInt, m.toInt_le⟩

/-- There is a 64-bit integer equal to `n` exactly if `n` is in the range. -/
theorem exists_checked_iff {n : Int} : (∃ m, checked n = some m) ↔ Representable n := by
  constructor
  · rintro ⟨m, hm⟩
    rw [← checked_eq_some_iff.mp hm]
    exact representable_toInt m
  · rintro ⟨hlow, hhigh⟩
    exact ⟨Int64.ofInt n, checked_eq_some_iff.mpr (Int64.toInt_ofInt_of_le hlow hhigh)⟩

theorem checked_eq_none_iff {n : Int} : checked n = none ↔ ¬ Representable n := by
  rw [← exists_checked_iff, Option.eq_none_iff_forall_ne_some, not_exists]

/-! ## Quotients -/

theorem ediv_neg_one (a : Int) : a / -1 = -a := by
  rw [Int.ediv_neg, Int.ediv_one]

/-- A divisor of size two or more halves the quotient at least, so it stays clear of the upper end
of the range. -/
theorem ediv_lt_of_ne_neg_one {a b : Int} (ha : Representable a) (hb : b ≠ 0) (hone : b ≠ -1) :
    a / b < 2 ^ 63 := by
  obtain ⟨hlow, hhigh⟩ := ha
  rcases Int.lt_or_gt_of_ne hb with hneg | hpos
  · obtain ⟨c, rfl⟩ : ∃ c, b = -c := ⟨-b, (Int.neg_neg b).symm⟩
    have hc : 2 ≤ c := by omega
    have hscaled : (-(2 ^ 63) + 1) * c ≤ (-(2 ^ 63) + 1) * 2 :=
      Int.mul_le_mul_of_nonpos_left (by decide) hc
    have hquotient : -(2 ^ 63) + 1 ≤ a / c :=
      Int.le_ediv_of_mul_le (by omega) (by omega)
    rw [Int.ediv_neg]
    omega
  · have hscaled : (2 ^ 63) * 1 ≤ (2 ^ 63) * b :=
      Int.mul_le_mul_of_nonneg_left (by omega) (by decide)
    exact Int.ediv_lt_of_lt_mul hpos (by omega)

/-- The quotient of two 64-bit integers is one, but for that of the least integer by `-1`. -/
theorem representable_ediv_iff {a b : Int} (ha : Representable a) (hb : b ≠ 0) :
    Representable (a / b) ↔ ¬ (a = -(2 ^ 63) ∧ b = -1) := by
  have hsize : (a / b).natAbs ≤ a.natAbs := Int.natAbs_ediv_le_natAbs a b
  by_cases hone : b = -1
  · subst hone
    rw [ediv_neg_one]
    unfold Representable at ha ⊢
    omega
  · have hhigh := ediv_lt_of_ne_neg_one ha hb hone
    refine iff_of_true ⟨?_, hhigh⟩ fun h => hone h.2
    unfold Representable at ha
    omega

theorem representable_emod (a : Int) {b : Int} (hb : Representable b) (hne : b ≠ 0) :
    Representable (a % b) := by
  have hlow := Int.emod_nonneg a hne
  have hhigh := Int.emod_lt a hne
  unfold Representable at hb ⊢
  omega

namespace ArithOp

/-- Division with remainder succeeds or fails in both of its parts. -/
theorem onInts_div_mod {a b : Int64} (hne : b.toInt ≠ 0)
    (hpair : ¬ (a.toInt = -(2 ^ 63) ∧ b.toInt = -1)) :
    ∃ q r : Int64, ArithOp.div.onInts a b = some q ∧ ArithOp.mod.onInts a b = some r ∧
      a.toInt = b.toInt * q.toInt + r.toInt ∧ 0 ≤ r.toInt ∧ r.toInt < b.toInt.natAbs := by
  have hquotient := (representable_ediv_iff (representable_toInt a) hne).mpr hpair
  obtain ⟨q, hq⟩ := exists_checked_iff.mpr hquotient
  obtain ⟨r, hr⟩ := exists_checked_iff.mpr (representable_emod a.toInt (representable_toInt b) hne)
  refine ⟨q, r, ?_, ?_, ?_⟩
  · rw [onInts, if_neg hne, hq]
  · rw [onInts, if_neg (by simp [hne, hq]), hr]
  · rw [checked_eq_some_iff.mp hq, checked_eq_some_iff.mp hr]
    exact ⟨(Int.mul_ediv_add_emod _ _).symm, Int.emod_nonneg _ hne, Int.emod_lt _ hne⟩

theorem onInts_div_mod_eq_none {a b : Int64}
    (h : b.toInt = 0 ∨ a.toInt = -(2 ^ 63) ∧ b.toInt = -1) :
    ArithOp.div.onInts a b = none ∧ ArithOp.mod.onInts a b = none := by
  by_cases hzero : b.toInt = 0
  · exact ⟨if_pos hzero, if_pos (.inl hzero)⟩
  · have hpair := h.resolve_left hzero
    have hnone : checked (a.toInt / b.toInt) = none := by
      rw [checked_eq_none_iff, representable_ediv_iff (representable_toInt a) hzero]
      exact not_not_intro hpair
    exact ⟨(if_neg hzero).trans hnone, if_pos (.inr hnone)⟩

end ArithOp

/-! ## Texts -/

theorem join_replicate_empty (count : Nat) : String.join (List.replicate count "") = "" := by
  induction count with
  | zero => rfl
  | succ count ih => rw [List.replicate_succ, String.join_cons, ih, String.empty_append]

/-- An empty text need not be repeated. -/
theorem repeatText_eq (s : String) (count : Nat) :
    repeatText s count = String.join (List.replicate count s) := by
  unfold repeatText
  split
  · rename_i hempty
    rw [String.isEmpty_iff.mp hempty, join_replicate_empty]
  · rfl

theorem maxTextBytes_eq : maxTextBytes = 2 ^ 20 := rfl

theorem concatTexts_eq (a b : String) : concatTexts a b =
    if a.utf8ByteSize + b.utf8ByteSize ≤ 2 ^ 20 then .ok (.str (a ++ b))
    else .error .concatenationTooLong := by
  simp only [concatTexts, maxTextBytes_eq, gt_iff_lt, ← Nat.not_le, ite_not]

theorem multiplyText_eq (s : String) (n : Int64) : multiplyText s n =
    if s.utf8ByteSize * n.toInt.toNat ≤ 2 ^ 20 then
      .ok (.str (String.join (List.replicate n.toInt.toNat s)))
    else .error .repetitionTooLong := by
  simp only [multiplyText, maxTextBytes_eq, gt_iff_lt, ← Nat.not_le, ite_not, repeatText_eq]

/-! ## Operands -/

/-- The value stands for a number: an integer for itself, a truth value for `0` or `1`. -/
inductive Value.Counts : Value → Int64 → Prop
  | truth (b : Bool) : Counts (.bool b) (if b then 1 else 0)
  | integer (n : Int64) : Counts (.int n) n

namespace Value

theorem Counts.toInt?_eq {v : Value} {n : Int64} (h : v.Counts n) : v.toInt? = some n := by
  cases h <;> rfl

theorem text_or_counts (v : Value) : (∃ s, v = .str s) ∨ ∃ n, v.Counts n := by
  cases v with
  | bool b => exact .inr ⟨_, .truth b⟩
  | int n => exact .inr ⟨n, .integer n⟩
  | str s => exact .inl ⟨s, rfl⟩

end Value

namespace ArithOp

variable {op : ArithOp} {v w : Value} {a b n : Int64}

theorem apply_of_counts (hv : v.Counts a) (hw : w.Counts b) :
    op.apply v w = op.onNumbers v w := by
  cases hv <;> cases hw <;> cases op <;> rfl

theorem apply_of_onInts_eq_some (hv : v.Counts a) (hw : w.Counts b) (h : op.onInts a b = some n) :
    op.apply v w = .ok (.int n) := by
  simp only [apply_of_counts hv hw, onNumbers, hv.toInt?_eq, hw.toInt?_eq, h]

theorem apply_of_onInts_eq_none (hv : v.Counts a) (hw : w.Counts b) (h : op.onInts a b = none) :
    op.apply v w = .error (.undefinedResult op a b) := by
  simp only [apply_of_counts hv hw, onNumbers, hv.toInt?_eq, hw.toInt?_eq, h]

theorem mul_apply_text (s : String) (hv : v.Counts n) :
    ArithOp.mul.apply (.str s) v = multiplyText s n ∧
      ArithOp.mul.apply v (.str s) = multiplyText s n := by
  cases hv <;> exact ⟨rfl, rfl⟩

theorem apply_texts (hop : op ≠ .add) (s u : String) :
    op.apply (.str s) (.str u) = .error (.unsupportedSorts op .str .str) := by
  cases op with
  | add => exact absurd rfl hop
  | _ => rfl

theorem apply_text_number (hop : op ≠ .mul) (s : String) (hv : v.Counts n) :
    op.apply (.str s) v = .error (.unsupportedSorts op .str v.sort) ∧
      op.apply v (.str s) = .error (.unsupportedSorts op v.sort .str) := by
  cases op with
  | mul => exact absurd rfl hop
  | _ => cases hv <;> exact ⟨rfl, rfl⟩

/-- The outcome is the integer `n` if this is a 64-bit one, and the failure if it is not. -/
structure Exactly (outcome : Except ValueError Value) (n : Int) (failure : ValueError) : Prop where
  succeeds : Representable n → ∃ m : Int64, m.toInt = n ∧ outcome = .ok (.int m)
  fails : ¬ Representable n → outcome = .error failure

theorem exactly_apply (hv : v.Counts a) (hw : w.Counts b) {result : Int}
    (h : op.onInts a b = checked result) :
    Exactly (op.apply v w) result (.undefinedResult op a b) where
  succeeds hresult := by
    obtain ⟨m, hm⟩ := exists_checked_iff.mpr hresult
    exact ⟨m, checked_eq_some_iff.mp hm, apply_of_onInts_eq_some hv hw (h.trans hm)⟩
  fails hresult := apply_of_onInts_eq_none hv hw (h.trans (checked_eq_none_iff.mpr hresult))

/-- **Arithmetic is exact.**  Every value is a text or a number.  Two texts can be added and a text
can be multiplied with a number, up to `2 ^ 20` bytes.  On two numbers a sum, a difference or a
product is the mathematical one, or there is none because it is no 64-bit integer.  Quotient and
remainder are the Euclidean ones, unless the divisor is `0` or the quotient is that of the least
integer by `-1`.  Everything else fails. -/
theorem apply_exact :
    (∀ v : Value, (∃ s, v = .str s) ∨ ∃ n, v.Counts n) ∧
    (∀ s u : String, ArithOp.add.apply (.str s) (.str u) =
      if s.utf8ByteSize + u.utf8ByteSize ≤ 2 ^ 20 then .ok (.str (s ++ u))
      else .error .concatenationTooLong) ∧
    (∀ (s : String) (v : Value) (n : Int64), v.Counts n →
      let count := n.toInt.toNat
      let outcome : Except ValueError Value :=
        if s.utf8ByteSize * count ≤ 2 ^ 20 then .ok (.str (String.join (List.replicate count s)))
        else .error .repetitionTooLong
      ArithOp.mul.apply (.str s) v = outcome ∧ ArithOp.mul.apply v (.str s) = outcome) ∧
    (∀ (v w : Value) (a b : Int64), v.Counts a → w.Counts b →
      Exactly (ArithOp.add.apply v w) (a.toInt + b.toInt) (.undefinedResult .add a b) ∧
      Exactly (ArithOp.sub.apply v w) (a.toInt - b.toInt) (.undefinedResult .sub a b) ∧
      Exactly (ArithOp.mul.apply v w) (a.toInt * b.toInt) (.undefinedResult .mul a b) ∧
      (b.toInt ≠ 0 ∧ ¬ (a.toInt = -(2 ^ 63) ∧ b.toInt = -1) →
        ∃ q r : Int64, ArithOp.div.apply v w = .ok (.int q) ∧ ArithOp.mod.apply v w = .ok (.int r) ∧
          a.toInt = b.toInt * q.toInt + r.toInt ∧ 0 ≤ r.toInt ∧ r.toInt < b.toInt.natAbs) ∧
      (b.toInt = 0 ∨ a.toInt = -(2 ^ 63) ∧ b.toInt = -1 →
        ArithOp.div.apply v w = .error (.undefinedResult .div a b) ∧
          ArithOp.mod.apply v w = .error (.undefinedResult .mod a b))) ∧
    (∀ (op : ArithOp) (s u : String), op ≠ .add →
      op.apply (.str s) (.str u) = .error (.unsupportedSorts op .str .str)) ∧
    (∀ (op : ArithOp) (s : String) (v : Value) (n : Int64), op ≠ .mul → v.Counts n →
      op.apply (.str s) v = .error (.unsupportedSorts op .str v.sort) ∧
        op.apply v (.str s) = .error (.unsupportedSorts op v.sort .str)) := by
  refine ⟨Value.text_or_counts, concatTexts_eq, ?_, ?_, fun op s u hop => apply_texts hop s u,
    fun op s v n hop hv => apply_text_number hop s hv⟩
  · intro s v n hv count outcome
    obtain ⟨hleft, hright⟩ := mul_apply_text s hv
    exact ⟨hleft.trans (multiplyText_eq s n), hright.trans (multiplyText_eq s n)⟩
  · intro v w a b hv hw
    refine ⟨exactly_apply hv hw rfl, exactly_apply hv hw rfl, exactly_apply hv hw rfl, ?_, ?_⟩
    · rintro ⟨hne, hpair⟩
      obtain ⟨q, r, hq, hr, hdivides⟩ := onInts_div_mod hne hpair
      exact ⟨q, r, apply_of_onInts_eq_some hv hw hq, apply_of_onInts_eq_some hv hw hr, hdivides⟩
    · intro hrefused
      obtain ⟨hdiv, hmod⟩ := onInts_div_mod_eq_none hrefused
      exact ⟨apply_of_onInts_eq_none hv hw hdiv, apply_of_onInts_eq_none hv hw hmod⟩

/-- A text repeated once because `true` counts as `1`, a division with two negative operands, and
two pairs of numbers without a result. -/
theorem apply_exact_edges :
    ArithOp.mul.apply (.bool true) (.str "ab") = .ok (.str "ab") ∧
      (∃ q r : Int64, ArithOp.div.apply (.int (-7)) (.int (-2)) = .ok (.int q) ∧
        ArithOp.mod.apply (.int (-7)) (.int (-2)) = .ok (.int r) ∧
        -7 = -2 * q.toInt + r.toInt ∧ 0 ≤ r.toInt ∧ r.toInt < 2) ∧
      ArithOp.mod.apply (.int Int64.minValue) (.int (-1)) =
        .error (.undefinedResult .mod Int64.minValue (-1)) ∧
      ArithOp.add.apply (.int Int64.maxValue) (.bool true) =
        .error (.undefinedResult .add Int64.maxValue 1) := by
  obtain ⟨-, -, hrepeats, hnumbers, -, -⟩ := apply_exact
  obtain ⟨-, -, -, hdivides, -⟩ :=
    hnumbers (.int (-7)) (.int (-2)) (-7) (-2) (.integer _) (.integer _)
  obtain ⟨-, -, -, -, hrefuses⟩ :=
    hnumbers (.int Int64.minValue) (.int (-1)) Int64.minValue (-1) (.integer _) (.integer _)
  obtain ⟨hadds, -⟩ :=
    hnumbers (.int Int64.maxValue) (.bool true) Int64.maxValue 1 (.integer _) (.truth true)
  refine ⟨(hrepeats "ab" (.bool true) 1 (.truth true)).2, hdivides (by decide),
    (hrefuses (by decide)).2, hadds.fails ?_⟩
  unfold Representable
  decide

end ArithOp

end BranchWitness
