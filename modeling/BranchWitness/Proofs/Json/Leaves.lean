import BranchWitness.Json.Read
import Mathlib.Algebra.Group.Nat.Defs

/-!
# Texts and integers in documents

The leaves of a document are read as they were written.

* A text is written character by character (`Quotation.escape_cases` lists the ways), and each
  character is scanned and named for itself, whatever follows it: `Quotation.scan_ofText` and
  `Quotation.text?_ofText`.
* An integer ends where its digits end, so it is read back in front of everything that can follow
  a value (`Json.Ends`): `Numeral.scan_ofInt` and `Numeral.integer?_ofInt`.
* An integer of 64 bits is far inside the range of double-precision numbers
  (`Numeral.inDoubleRange_ofInt`).  The bounds on the way are coarse: no mantissa is followed more
  closely than the range needs.
-/

namespace BranchWitness

/-! ## Texts -/

namespace Quotation

theorem hexDigit?_hexDigit {n : Nat} (h : n < 16) : hexDigit? (hexDigit n) = some n := by
  revert n
  decide

/-- The ways a character is written: by a short escape, by its number, or as it is. -/
theorem escape_cases (c : Char) :
    (∃ x, escape c = ['\\', x] ∧ shortEscape? x = some c ∧ x ≠ 'u') ∨
      (∃ high low, escape c = ['\\', 'u', '0', '0', high, low] ∧ c.toNat < 0x20 ∧
        codeUnit? '0' '0' high low = some c.toNat) ∨
      (escape c = [c] ∧ c ≠ '"' ∧ c ≠ '\\' ∧ ¬ c.toNat < 0x20) := by
  unfold escape
  -- the seven characters with a short escape
  iterate 7
    split
    · subst_vars
      exact .inl ⟨_, rfl, by decide, by decide⟩
  split
  · rename_i hcontrol
    refine .inr (.inl ⟨_, _, rfl, hcontrol, ?_⟩)
    have hzero : hexDigit? '0' = some 0 := by decide
    have hhigh : hexDigit? (hexDigit (c.toNat / 16)) = some (c.toNat / 16) :=
      hexDigit?_hexDigit (by omega)
    have hlow : hexDigit? (hexDigit (c.toNat % 16)) = some (c.toNat % 16) :=
      hexDigit?_hexDigit (by omega)
    simp only [codeUnit?, hzero, hhigh, hlow, Option.some_inj]
    omega
  · rename_i hquote hbackslash _ _ _ _ _ hcontrol
    exact .inr (.inr ⟨rfl, hquote, hbackslash, hcontrol⟩)

/-- One character of a quotation is scanned as it was written. -/
theorem scan_escape {rest after : List Char} {body : Quotation} (h : scan rest = some (body, after))
    (c : Char) : scan (escape c ++ rest) = some (escape c ++ body, after) := by
  obtain ⟨x, hescape, hx, hu⟩ | ⟨high, low, hescape, -, hunit⟩ |
    ⟨hescape, hquote, hbackslash, hcontrol⟩ := escape_cases c
  · rw [hescape, List.cons_append, List.cons_append, List.nil_append, scan]
    · simp only [hx, h, List.cons_append, List.nil_append]
    · intro _ _ _ _ _ hu'; exact absurd hu' hu
  · simp only [hescape, List.cons_append, List.nil_append, scan, hunit, h]
  · rw [hescape, List.cons_append, List.nil_append, scan]
    · simp only [if_neg hcontrol, h, List.cons_append, List.nil_append]
    · exact hquote
    · intro _ _ _ _ _ hb _; exact absurd hb hbackslash
    · intro _ _ hb _; exact absurd hb hbackslash

/-- One character of a quotation names the character that was written. -/
theorem chars?_escape {rest : Quotation} {chars : List Char} (h : chars? rest = some chars)
    (c : Char) : chars? (escape c ++ rest) = some (c :: chars) := by
  obtain ⟨x, hescape, hx, hu⟩ | ⟨high, low, hescape, hcontrol, hunit⟩ |
    ⟨hescape, hquote, hbackslash, -⟩ := escape_cases c
  · rw [hescape, List.cons_append, List.cons_append, List.nil_append, chars?]
    · simp only [hx, h, Option.map_some]
    · intros; exact absurd ‹x = 'u'› hu
    · intros; exact absurd ‹x = 'u'› hu
  · have hleading : isLeading c.toNat = false := by simp [isLeading]; omega
    have htrailing : isTrailing c.toNat = false := by simp [isTrailing]; omega
    simp only [hescape, List.cons_append, List.nil_append]
    -- what follows may start like the second half of a pair, but this is no first half
    by_cases hpair : ∃ e f g i tail, rest = '\\' :: 'u' :: e :: f :: g :: i :: tail
    · obtain ⟨e, f, g, i, tail, rfl⟩ := hpair
      simp [chars?, hunit, hleading, htrailing, h, Char.ofNat_toNat]
    · rw [chars?]
      · simp [hunit, hleading, htrailing, h, Char.ofNat_toNat]
      · intro e f g i tail heq
        exact hpair ⟨e, f, g, i, tail, heq⟩
  · rw [hescape, List.cons_append, List.nil_append, chars?]
    · simp only [h, Option.map_some]
    all_goals intros; exact absurd ‹c = '\\'› hbackslash

theorem scan_flatMap_escape (cs rest : List Char) :
    scan (cs.flatMap escape ++ '"' :: rest) = some (cs.flatMap escape, rest) := by
  induction cs with
  | nil => simp [scan]
  | cons c cs ih =>
      rw [List.flatMap_cons, List.append_assoc]
      exact scan_escape ih c

/-- A text that was written is scanned up to its closing quote. -/
theorem scan_ofText (s : String) (rest : List Char) :
    scan (ofText s ++ '"' :: rest) = some (ofText s, rest) :=
  scan_flatMap_escape s.toList rest

theorem chars?_flatMap_escape (cs : List Char) : chars? (cs.flatMap escape) = some cs := by
  induction cs with
  | nil => simp [chars?]
  | cons c cs ih =>
      rw [List.flatMap_cons]
      exact chars?_escape ih c

/-- What is written for a text names the text. -/
@[simp] theorem text?_ofText (s : String) : text? (ofText s) = some s := by
  rw [text?, ofText, chars?_flatMap_escape, Option.map_some, String.ofList_toList]

end Quotation

/-! ## Integers -/

/-- What can follow a value in a document: nothing, a comma or the end of an array or object. -/
def Json.Ends (rest : List Char) : Prop :=
  rest = [] ∨ ∃ c tail, rest = c :: tail ∧ (c = ',' ∨ c = ']' ∨ c = '\x7d')

namespace Numeral

open Json (Ends)

theorem isDigit_of_mem_toDigits {n : Nat} {c : Char} (h : c ∈ Nat.toDigits 10 n) :
    isDigit c = true := by
  have hdigit := Nat.isDigit_of_mem_toDigits (by decide) (by decide) h
  simpa [Char.isDigit, isDigit, Char.le_def] using hdigit

theorem takeDigits_toDigits (n : Nat) {rest : List Char} (hends : Ends rest) :
    takeDigits (Nat.toDigits 10 n ++ rest) = (Nat.toDigits 10 n, rest) := by
  have hdigits : ∀ c ∈ Nat.toDigits 10 n, isDigit c = true := fun c => isDigit_of_mem_toDigits
  have hnone : rest.takeWhile isDigit = [] ∧ rest.dropWhile isDigit = rest := by
    obtain rfl | ⟨c, tail, rfl, rfl | rfl | rfl⟩ := hends
    · simp
    · simp [isDigit]
    · simp [isDigit]
    · simp [isDigit]
  rw [takeDigits, List.takeWhile_append_of_pos hdigits, List.dropWhile_append_of_pos hdigits,
    hnone.1, hnone.2, List.append_nil]

theorem digitsValue_toDigits (n : Nat) : digitsValue (Nat.toDigits 10 n) = n := by
  have hfold : ∀ cs : List Char, digitsValue cs = Nat.ofDigitChars 10 cs 0 := by
    intro cs
    unfold digitsValue Nat.ofDigitChars
    congr 1
    funext value c
    rw [Nat.mul_comm]
  rw [hfold, Nat.ofDigitChars_ten_toDigits]

theorem exists_digit_cons (n : Nat) :
    ∃ d ds, Nat.toDigits 10 n = d :: ds ∧ isDigit d = true := by
  have hne : Nat.toDigits 10 n ≠ [] := by
    by_cases hsmall : n < 10
    · simp [Nat.toDigits_of_lt_base hsmall]
    · rw [Nat.toDigits_of_base_le (by decide) (by omega)]
      simp
  obtain ⟨d, ds, hdigits⟩ := List.exists_cons_of_ne_nil hne
  exact ⟨d, ds, hdigits, isDigit_of_mem_toDigits (hdigits ▸ List.mem_cons_self)⟩

/-- The digits of a number other than zero do not start with a zero. -/
theorem head?_toDigits {n : Nat} (h : n ≠ 0) : (Nat.toDigits 10 n).head? ≠ some '0' := by
  induction n using Nat.strongRecOn with
  | ind n ih =>
      by_cases hsmall : n < 10
      · have hdigit : ∀ m < 10, m ≠ 0 → [m.digitChar].head? ≠ some '0' := by decide
        rw [Nat.toDigits_of_lt_base hsmall]
        exact hdigit n hsmall h
      · have hquotient := ih (n / 10) (by omega) (by omega)
        obtain ⟨d, ds, hdigits, -⟩ := exists_digit_cons (n / 10)
        rw [Nat.toDigits_of_base_le (by decide) (by omega), hdigits, List.cons_append]
        rwa [hdigits] at hquotient

theorem scanWhole_toDigits (n : Nat) {rest : List Char} (hends : Ends rest) :
    scanWhole (Nat.toDigits 10 n ++ rest) = some (n, rest) := by
  unfold scanWhole
  rw [takeDigits_toDigits n hends]
  by_cases hzero : n = 0
  · subst hzero
    simp
  · have hhead := head?_toDigits hzero
    have hvalue := digitsValue_toDigits n
    obtain ⟨d, ds, hdigits, -⟩ := exists_digit_cons n
    rw [hdigits] at hhead hvalue ⊢
    have hd : d ≠ '0' := by simpa using hhead
    split
    · rename_i heq
      cases heq
    · rename_i heq
      cases heq
      exact absurd rfl hd
    · rename_i heq
      cases heq
      exact absurd rfl hd
    · rename_i digits after _ _ _ heq
      cases heq
      rw [hvalue]

theorem scanUnsigned_toDigits (negative : Bool) (n : Nat) {rest : List Char} (hends : Ends rest) :
    scanUnsigned negative (Nat.toDigits 10 n ++ rest) =
      some (⟨negative, n, [], none⟩, rest) := by
  have hfraction : scanFraction rest = some ([], rest) := by
    obtain rfl | ⟨c, tail, rfl, rfl | rfl | rfl⟩ := hends <;> simp [scanFraction]
  have hexponent : scanExponent rest = some (none, rest) := by
    obtain rfl | ⟨c, tail, rfl, rfl | rfl | rfl⟩ := hends <;> simp [scanExponent]
  simp only [scanUnsigned, scanWhole_toDigits n hends, hfraction, hexponent]

theorem chars_ofInt (n : Int) :
    (ofInt n).chars = (if n < 0 then ['-'] else []) ++ Nat.toDigits 10 n.natAbs := by
  simp [chars, ofInt]

/-- An integer that was written is scanned up to its end. -/
theorem scan_ofInt (n : Int) {rest : List Char} (hends : Ends rest) :
    scan ((ofInt n).chars ++ rest) = some (ofInt n, rest) := by
  rw [chars_ofInt]
  by_cases hnegative : n < 0
  · simp only [hnegative, if_true, List.cons_append, List.nil_append, scan,
      scanUnsigned_toDigits true n.natAbs hends, ofInt, decide_true]
  · rw [if_neg hnegative, List.nil_append, scan]
    · simp only [scanUnsigned_toDigits false n.natAbs hends, ofInt, hnegative, decide_false]
    · intro tail heq
      obtain ⟨d, ds, hdigits, hd⟩ := exists_digit_cons n.natAbs
      rw [hdigits, List.cons_append] at heq
      cases heq
      cases hd

/-- What is written for an integer names the integer. -/
@[simp] theorem integer?_ofInt (n : Int) : (ofInt n).integer? = some n := by
  by_cases hnegative : n < 0
  · have hne : n.natAbs ≠ 0 := by omega
    have hof : ofInt n = ⟨true, n.natAbs, [], none⟩ := by simp [ofInt, hnegative]
    rw [hof, integer?, if_pos (by simpa using hne), if_pos rfl, Option.some_inj]
    dsimp only
    omega
  · have hof : ofInt n = ⟨false, n.natAbs, [], none⟩ := by simp [ofInt, hnegative]
    rw [hof, integer?, if_pos (by simp), if_neg (by simp), Option.some_inj]
    dsimp only
    omega

end Numeral
/-! ## The range of double-precision numbers -/

namespace Decimal

/-- The power of two at or below a fraction is that of its numerator at most. -/
theorem binaryLog_lt {numerator k : Nat} (hzero : numerator ≠ 0) (h : numerator < 2 ^ k)
    (denominator : Nat) : binaryLog numerator denominator < k := by
  have hlog : numerator.log2 < k := (Nat.log2_lt hzero).mpr h
  unfold binaryLog
  dsimp only
  split <;> omega

theorem roundDiv_le (numerator denominator : Nat) :
    roundDiv numerator denominator ≤ numerator + 1 := by
  have hquotient : numerator / denominator ≤ numerator := Nat.div_le_self _ _
  unfold roundDiv
  dsimp only
  split
  · omega
  · split <;> omega

/-- Rounding at an exponent of at least `-k` gives a mantissa of at most `k` bits more. -/
theorem roundAt_le (numerator denominator : Nat) {exponent : Int} {k : Nat} (h : -k ≤ exponent) :
    (roundAt numerator denominator exponent).exponent ≤ exponent + 1 ∧
      (roundAt numerator denominator exponent).mantissa ≤ 2 ^ 52 + numerator * 2 ^ k := by
  have hround := roundDiv_le (numerator * Nat.pow 2 (-exponent).toNat)
    (denominator * Nat.pow 2 exponent.toNat)
  have hpower : numerator * Nat.pow 2 (-exponent).toNat ≤ numerator * 2 ^ k :=
    Nat.mul_le_mul_left _ (Nat.pow_le_pow_right (by decide) (by omega))
  unfold roundAt
  dsimp only
  split
  · exact ⟨Int.le_refl _, Nat.le_add_right _ _⟩
  · dsimp only
    omega

/-- A fraction with a numerator far below the end of the range has a nearest number, and this has
the exponent that the power of two says. -/
theorem nearestFraction?_eq_some {numerator : Nat} (hzero : numerator ≠ 0)
    (h : numerator < 2 ^ 250) (denominator : Nat) :
    nearestFraction? numerator denominator = some (roundAt numerator denominator
      (max (-1074) (binaryLog numerator denominator - 52))) := by
  have hlog := binaryLog_lt hzero h denominator
  unfold nearestFraction?
  dsimp only
  generalize hexponent : max (-1074) (binaryLog numerator denominator - 52) = exponent
  have hround := (roundAt_le numerator denominator (show -(1074 : Nat) ≤ exponent by omega)).1
  rw [if_neg hzero, if_neg (by omega)]

/-- The number nearest to a whole number of 64 bits is of moderate size. -/
theorem exists_nearest? {n : Nat} (h : n < 2 ^ 64) :
    ∃ double, nearest? n 0 = some double ∧ double.mantissa < 2 ^ 120 ∧ double.exponent ≤ 13 := by
  by_cases hzero : n = 0
  · exact ⟨.zero, by simp [nearest?, hzero], by decide, by decide⟩
  have hdigits : digitCount n ≤ 20 :=
    (Nat.length_toDigits_le_iff (by decide) (by decide)).mpr (Nat.lt_trans h (by decide))
  have hnearest : nearest? n 0 = nearestFraction? (n * 1) 1 := by
    unfold nearest?
    dsimp only
    rw [if_neg (by omega), if_neg (by omega)]
    rfl
  have hhigh := binaryLog_lt hzero h 1
  have hlow : -1 ≤ binaryLog n 1 := by
    have hone : Nat.log2 1 = 0 := by decide
    unfold binaryLog
    dsimp only
    rw [hone]
    split <;> omega
  have hrange : n < 2 ^ 250 :=
    Nat.lt_of_lt_of_le h (Nat.pow_le_pow_right (by decide) (by decide))
  have hfraction := nearestFraction?_eq_some hzero hrange 1
  generalize hexponent : max (-1074) (binaryLog n 1 - 52) = exponent at hfraction
  have hround := roundAt_le n 1 (show -(53 : Nat) ≤ exponent by omega)
  refine ⟨roundAt n 1 exponent, ?_, by omega, by omega⟩
  rw [hnearest, Nat.mul_one, hfraction]

/-- The product of two numbers of moderate size is finite. -/
theorem isSome_mul? {a b : Double} (ha : a.mantissa < 2 ^ 120 ∧ a.exponent ≤ 13)
    (hb : b.mantissa < 2 ^ 60 ∧ b.exponent ≤ 13) : (a.mul? b).isSome = true := by
  unfold Double.mul?
  dsimp only
  generalize hproduct : a.mantissa * b.mantissa * Nat.pow 2 (a.exponent + b.exponent).toNat
    = numerator
  by_cases hzero : numerator = 0
  · simp [nearestFraction?, hzero]
  have hmantissa : a.mantissa * b.mantissa < 2 ^ 120 * 2 ^ 60 := Nat.mul_lt_mul'' ha.1 hb.1
  have hpower : Nat.pow 2 (a.exponent + b.exponent).toNat ≤ 2 ^ 26 :=
    Nat.pow_le_pow_right (by decide) (by omega)
  have hrange : numerator < 2 ^ 250 := by
    calc numerator = a.mantissa * b.mantissa * Nat.pow 2 (a.exponent + b.exponent).toNat :=
          hproduct.symm
      _ ≤ a.mantissa * b.mantissa * 2 ^ 26 := Nat.mul_le_mul_left _ hpower
      _ < 2 ^ 120 * 2 ^ 60 * 2 ^ 26 := Nat.mul_lt_mul_of_pos_right hmantissa (by decide)
      _ ≤ 2 ^ 250 := by decide
  rw [nearestFraction?_eq_some hzero hrange, Option.isSome_some]

end Decimal

namespace Numeral

/-- The number with one more digit. -/
def withDigit (value : Nat) (c : Char) : Nat :=
  value * 10 + (c.toNat - '0'.toNat)

theorem le_foldl_withDigit (digits : List Char) (value : Nat) :
    value ≤ digits.foldl withDigit value := by
  induction digits generalizing value with
  | nil => exact Nat.le_refl value
  | cons c rest ih =>
      have hstep : value ≤ withDigit value c := by
        unfold withDigit
        omega
      exact Nat.le_trans hstep (ih _)

/-- Digits whose number fits in 64 bits are absorbed to the last. -/
theorem absorb_eq {value : Nat} {digits : List Char}
    (h : digits.foldl withDigit value < UInt64.size) :
    absorb value digits = (digits.foldl withDigit value, []) := by
  induction digits generalizing value with
  | nil => rfl
  | cons c rest ih =>
      rw [List.foldl_cons] at h ⊢
      rw [absorb, ← ih h]
      exact if_pos (Nat.lt_of_le_of_lt (le_foldl_withDigit rest _) h)

/-- Every integer of 64 bits, with a sign or without, lies in the range of double-precision
numbers. -/
theorem inDoubleRange_ofInt {n : Int} (h : n.natAbs < UInt64.size) :
    (ofInt n).inDoubleRange = true := by
  have hvalue : (Nat.toDigits 10 n.natAbs).foldl withDigit 0 = n.natAbs :=
    digitsValue_toDigits n.natAbs
  have hscaled : (ofInt n).scaled = (n.natAbs, 0) := by
    unfold scaled ofInt
    rw [absorb_eq (by rwa [hvalue]), hvalue]
    rfl
  obtain ⟨digits, hdigits, hsize⟩ := Decimal.exists_nearest? h
  have hscale : Decimal.nearest? 1 0 = some ⟨2 ^ 52, -52⟩ := rfl
  unfold inDoubleRange
  rw [hscaled]
  dsimp only
  rw [hdigits, hscale]
  split
  · rfl
  · exact Decimal.isSome_mul? hsize (by decide)

end Numeral
end BranchWitness
