import BranchWitness.Proofs.Json.Leaves
import BranchWitness.Proofs.Yaml.Blocks

/-!
# Words and the values they spell

An integer of 64 bits is written as a word that is read as that integer: its digits start with no
needless zero, and no word for nothing or for a truth value starts like a number.  So the leaves of
a document can be had from values, and its keys from names.
-/

namespace BranchWitness.Yaml

/-! ## Integers -/

theorem digitValue?_of_isDigit {c : Char} (h : Numeral.isDigit c = true) :
    digitValue? 10 c = some (c.toNat - '0'.toNat) := by
  have hbounds : '0' ≤ c ∧ c ≤ '9' := by simpa [Numeral.isDigit] using h
  have hsmall : c.toNat - '0'.toNat < 10 := by
    have hnine : c.toNat ≤ 57 := hbounds.2
    have hzero : '0'.toNat = 48 := rfl
    omega
  simpa [digitValue?, hbounds] using hsmall

theorem number?_toDigits (n : Nat) : number? 10 (Nat.toDigits 10 n) = some n := by
  have hfold : ∀ (digits : List Char) (start : Nat), (∀ c ∈ digits, Numeral.isDigit c = true) →
      digits.foldlM (fun value c => (digitValue? 10 c).map fun d => value * 10 + d) start =
        some (digits.foldl (fun value c => value * 10 + (c.toNat - '0'.toNat)) start) := by
    intro digits
    induction digits with
    | nil => intros; rfl
    | cons c digits ih =>
        intro start hdigits
        rw [List.forall_mem_cons] at hdigits
        simp [digitValue?_of_isDigit hdigits.1, ih _ hdigits.2]
  obtain ⟨d, ds, hcons, -⟩ := Numeral.exists_digit_cons n
  have hvalue := Numeral.digitsValue_toDigits n
  rw [number?, hfold _ _ fun c => Numeral.isDigit_of_mem_toDigits]
  unfold Numeral.digitsValue at hvalue
  rw [hvalue, hcons]
  rfl

theorem magnitude?_toDigits (n : Nat) : magnitude? (Nat.toDigits 10 n) = some n := by
  by_cases hzero : n = 0
  · subst hzero
    rfl
  · have hhead := Numeral.head?_toDigits hzero
    have hneedless : hasNeedlessZero (Nat.toDigits 10 n) = false := by
      unfold hasNeedlessZero
      split
      · rename_i heq
        simp [heq] at hhead
      · rfl
    unfold magnitude?
    split
    · rename_i heq
      simp [heq] at hhead
    · rename_i heq
      simp [heq] at hhead
    · rename_i heq
      simp [heq] at hhead
    · rw [hneedless, if_neg (by decide), number?_toDigits]

theorem readInt_toDigits {n : Nat} (h : n < Nat.pow 2 64) :
    readInt (Nat.toDigits 10 n) = .integer n := by
  obtain ⟨d, ds, hcons, hdigit⟩ := Numeral.exists_digit_cons n
  have hsign : splitSign (Nat.toDigits 10 n) = (false, Nat.toDigits 10 n) := by
    rw [hcons]
    unfold splitSign
    split
    · rename_i heq
      cases heq
      cases hdigit
    · rename_i heq
      cases heq
      cases hdigit
    · rfl
  unfold readInt
  rw [hsign]
  simp only [magnitude?_toDigits, Bool.false_eq_true, ite_false, if_pos h]

theorem readInt_neg_toDigits {n : Nat} (h : n ≤ Nat.pow 2 63) :
    readInt ('-' :: Nat.toDigits 10 n) = .integer (-n) := by
  unfold readInt
  simp only [splitSign, magnitude?_toDigits, ite_true, if_pos h]

/-- No word for nothing or for a truth value starts like a number. -/
theorem ofPlain?_of_readInt {c : Char} {cs : List Char} {n : Int}
    (hc : Numeral.isDigit c = true ∨ c = '-') (h : readInt (c :: cs) = .integer n) :
    ofPlain? (c :: cs) = some (int n) := by
  have hwords : ∀ text ∈ ["", "~", "null", "Null", "NULL", "true", "True", "TRUE", "false", "False",
      "FALSE"], String.ofList (c :: cs) ≠ text := by
    have hstart : (["", "~", "null", "Null", "NULL", "true", "True", "TRUE", "false", "False",
        "FALSE"].all fun text => text.toList.head?.all fun d =>
          !Numeral.isDigit d && d != '-') = true := by
      decide
    rintro text hmem rfl
    have hnone := List.all_eq_true.mp hstart _ hmem
    rw [String.toList_ofList, List.head?_cons, Option.all_some] at hnone
    obtain hdigit | rfl := hc
    · simp [hdigit] at hnone
    · simp at hnone
  simp only [List.forall_mem_cons] at hwords
  have hnull : isNull (String.ofList (c :: cs)) = false := by
    simp [isNull, hwords, -String.ofList_cons]
  have hbool : boolean? (String.ofList (c :: cs)) = none := by
    simp [boolean?, hwords, -String.ofList_cons]
  unfold ofPlain?
  simp [hnull, hbool, h, hwords, -String.ofList_cons]

/-! ## Integers as they are written -/

theorem toList_toString_ofNat (n : Nat) : (toString (n : Int)).toList = Nat.toDigits 10 n := by
  change (Nat.repr n).toList = _
  simp [Nat.repr]

theorem toList_toString_negSucc (n : Nat) :
    (toString (Int.negSucc n)).toList = '-' :: Nat.toDigits 10 (n + 1) := by
  change ("-" ++ Nat.repr (n + 1)).toList = _
  simp [Nat.repr]

theorem isWordChar_of_isDigit {c : Char} (h : Numeral.isDigit c = true) : isWordChar c = true := by
  simp only [Numeral.isDigit] at h
  simp [isWordChar, h]

theorem isWord_toString (n : Int) : IsWord (toString n).toList := by
  have hdigits : ∀ (n : Nat), ∀ c ∈ Nat.toDigits 10 n, isWordChar c = true := fun n c hc =>
    isWordChar_of_isDigit (Numeral.isDigit_of_mem_toDigits hc)
  cases n with
  | ofNat n =>
      obtain ⟨d, ds, hcons, -⟩ := Numeral.exists_digit_cons n
      rw [Int.ofNat_eq_natCast, toList_toString_ofNat]
      exact ⟨by simp [hcons], hdigits n⟩
  | negSucc n =>
      rw [toList_toString_negSucc]
      exact ⟨by simp, List.forall_mem_cons.mpr ⟨by decide, hdigits (n + 1)⟩⟩

theorem toString_ne_dash (n : Int) : (toString n).toList ≠ ['-'] := by
  cases n with
  | ofNat n =>
      obtain ⟨d, ds, hcons, hdigit⟩ := Numeral.exists_digit_cons n
      rw [Int.ofNat_eq_natCast, toList_toString_ofNat, hcons]
      intro h
      cases h
      cases hdigit
  | negSucc n =>
      obtain ⟨d, ds, hcons, -⟩ := Numeral.exists_digit_cons (n + 1)
      rw [toList_toString_negSucc, hcons]
      simp

theorem ofPlain?_toString {n : Int} (hlow : -(Nat.pow 2 63 : Int) ≤ n)
    (hhigh : n < (Nat.pow 2 64 : Nat)) : ofPlain? (toString n).toList = some (int n) := by
  cases n with
  | ofNat n =>
      obtain ⟨d, ds, hcons, hdigit⟩ := Numeral.exists_digit_cons n
      have hread := readInt_toDigits (Int.ofNat_lt.mp hhigh)
      rw [Int.ofNat_eq_natCast, toList_toString_ofNat]
      rw [hcons] at hread ⊢
      exact ofPlain?_of_readInt (.inl hdigit) hread
  | negSucc n =>
      rw [toList_toString_negSucc]
      exact ofPlain?_of_readInt (.inr rfl) (readInt_neg_toDigits (by omega))

namespace Leaf

/-- Nothing. -/
def null : Leaf :=
  ⟨"null", .null, by decide, by decide, rfl⟩

/-- A truth value. -/
def ofBool : Bool → Leaf
  | true => ⟨"true", .bool true, by decide, by decide, rfl⟩
  | false => ⟨"false", .bool false, by decide, by decide, rfl⟩

/-- An integer of 64 bits, signed or not. -/
def ofInt (n : Int) (hlow : -(Nat.pow 2 63 : Int) ≤ n) (hhigh : n < (Nat.pow 2 64 : Nat)) : Leaf :=
  ⟨toString n, .int n, isWord_toString n, toString_ne_dash n, ofPlain?_toString hlow hhigh⟩

def ofUInt64 (n : UInt64) : Leaf :=
  ofInt n.toNat (by omega) (Int.ofNat_lt.mpr n.toNat_lt_size)

def ofInt64 (n : Int64) : Leaf :=
  ofInt n.toInt n.le_toInt (Int.lt_trans n.toInt_lt (by decide))

@[simp] theorem text_ofBool (b : Bool) : (ofBool b).text = if b then "true" else "false" := by
  cases b <;> rfl

@[simp] theorem value_ofBool (b : Bool) : (ofBool b).value = .bool b := by
  cases b <;> rfl

@[simp] theorem text_ofUInt64 (n : UInt64) : (ofUInt64 n).text = toString n.toNat := rfl

@[simp] theorem value_ofUInt64 (n : UInt64) : (ofUInt64 n).value = .int n.toNat := rfl

@[simp] theorem text_ofInt64 (n : Int64) : (ofInt64 n).text = toString n.toInt := rfl

@[simp] theorem value_ofInt64 (n : Int64) : (ofInt64 n).value = .int n.toInt := rfl

end Leaf

/-! ## Keys -/

namespace Key

/-- Whether a name can be a key. -/
def accepts (name : String) : Bool :=
  decide (IsWord name.toList) && name.toList.head? != some '-' && name.toList.length ≤ 1024 &&
    match ofPlain? name.toList with
    | some (str text) => text = name
    | _ => false

theorem ofPlain?_of_accepts {name : String} (h : accepts name = true) :
    ofPlain? name.toList = some (str name) := by
  simp only [accepts, Bool.and_eq_true] at h
  obtain ⟨-, hreads⟩ := h
  split at hreads
  · rename_i text heq
    rw [heq, of_decide_eq_true hreads]
  · cases hreads

/-- The key with a name. -/
def ofName (name : String) (h : accepts name = true) : Key where
  name := name
  isWord := by
    simp only [accepts, Bool.and_eq_true, decide_eq_true_eq] at h
    exact h.1.1.1
  starts := by
    simp only [accepts, Bool.and_eq_true, bne_iff_ne] at h
    exact h.1.1.2
  short := by
    simp only [accepts, Bool.and_eq_true, decide_eq_true_eq] at h
    exact h.1.2
  reads := ofPlain?_of_accepts h

@[simp] theorem name_ofName (name : String) (h : accepts name = true) :
    (ofName name h).name = name :=
  rfl

end Key

/-- A key as a text. -/
def Leaf.ofKey (key : Key) : Leaf where
  text := key.name
  value := str key.name
  isWord := key.isWord
  ne_dash := fun h => key.starts (by rw [h]; rfl)
  reads := key.reads

end BranchWitness.Yaml
