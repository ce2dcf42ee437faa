import BranchWitness.Yaml.Read

/-!
# Words in a YAML text

A word is made of letters, digits, underscores and dashes.  It is a plain scalar of its own: the
scalar ends before the colon that makes it a key, and with its line if the next line is not
indented further.  Between the tokens the scanner passes over blanks and line ends up to a visible
character.
-/

namespace BranchWitness.Yaml

/-! ## Characters -/

theorem toNat_of_isWordChar {c : Char} (h : isWordChar c = true) :
    45 ≤ c.toNat ∧ c.toNat ≤ 122 := by
  simp only [isWordChar, Bool.or_eq_true, Bool.and_eq_true, decide_eq_true_eq, Char.le_def,
    UInt32.le_iff_toNat_le] at h
  have hc : c.toNat = c.val.toNat := rfl
  rcases h with (((⟨h1, h2⟩ | ⟨h1, h2⟩) | ⟨h1, h2⟩) | rfl) | rfl
  · have : ('0' : Char).val.toNat = 48 := rfl
    have : ('9' : Char).val.toNat = 57 := rfl
    omega
  · have : ('A' : Char).val.toNat = 65 := rfl
    have : ('Z' : Char).val.toNat = 90 := rfl
    omega
  · have : ('a' : Char).val.toNat = 97 := rfl
    have : ('z' : Char).val.toNat = 122 := rfl
    omega
  · decide
  · decide

theorem ne_of_isWordChar {c d : Char} (h : isWordChar c = true) (hd : isWordChar d = false) :
    c ≠ d := by
  rintro rfl
  rw [h] at hd
  cases hd

theorem isBlank_of_isWordChar {c : Char} (h : isWordChar c = true) : isBlank c = false := by
  simp [isBlank, ne_of_isWordChar h (show isWordChar ' ' = false by decide),
    ne_of_isWordChar h (show isWordChar '\t' = false by decide)]

theorem isBreak_of_isWordChar {c : Char} (h : isWordChar c = true) : isBreak c = false := by
  have := toNat_of_isWordChar h
  have h1 := ne_of_isWordChar h (show isWordChar '\r' = false by decide)
  have h2 := ne_of_isWordChar h (show isWordChar '\n' = false by decide)
  simp [isBreak, isSeparator, h1, h2]
  omega

theorem isSpacing_of_isWordChar {c : Char} (h : isWordChar c = true) : isSpacing c = false := by
  simp [isSpacing, isBlank_of_isWordChar h, isBreak_of_isWordChar h]

theorem isPrintable_of_isWordChar {c : Char} (h : isWordChar c = true) : isPrintable c = true := by
  have := toNat_of_isWordChar h
  simp only [isPrintable, Bool.or_eq_true, Bool.and_eq_true, decide_eq_true_eq]
  omega

/-- Characters that are not passed over between tokens. -/
def isVisible (c : Char) : Bool :=
  !isSpacing c && c ≠ '#' && c ≠ Char.ofNat 0xFEFF

theorem isVisible_iff {c : Char} : isVisible c = true ↔
    isBlank c = false ∧ isBreak c = false ∧ c ≠ '#' ∧ c ≠ Char.ofNat 0xFEFF := by
  simp [isVisible, isSpacing, and_assoc]

theorem isVisible_of_isWordChar {c : Char} (h : isWordChar c = true) : isVisible c = true := by
  simp [isVisible, isSpacing_of_isWordChar h,
    ne_of_isWordChar h (show isWordChar '#' = false by decide),
    ne_of_isWordChar h (show isWordChar (Char.ofNat 0xFEFF) = false by decide)]

/-- What follows is a visible character, or nothing. -/
def StartsVisible (cs : List Char) : Prop :=
  ∀ c, cs.head? = some c → isVisible c = true

theorem startsVisible_cons {c : Char} (h : isVisible c = true) (cs : List Char) :
    StartsVisible (c :: cs) := by
  rintro d hd
  cases hd
  exact h

theorem plainPiece_append {word rest : List Char} (hword : ∀ c ∈ word, isWordChar c = true)
    (hrest : plainPiece false rest = some []) : plainPiece false (word ++ rest) = some word := by
  induction word with
  | nil => exact hrest
  | cons c word ih =>
      rw [List.forall_mem_cons] at hword
      have hcolon := ne_of_isWordChar hword.1 (show isWordChar ':' = false by decide)
      simp [plainPiece, isSpacing_of_isWordChar hword.1, hcolon, ih hword.2]

theorem takeWhile_isBlank_replicate {next : List Char} (hnext : StartsVisible next) (width : Nat) :
    (List.replicate width ' ' ++ next).takeWhile isBlank = List.replicate width ' ' := by
  have hnone : next.takeWhile isBlank = [] := by
    cases next with
    | nil => rfl
    | cons c cs =>
        obtain ⟨hblank, -⟩ := isVisible_iff.mp (hnext c rfl)
        simp [hblank]
  rw [List.takeWhile_append_of_pos (by simp [isBlank]), hnone, List.append_nil]

theorem readBreak_of_startsVisible {cursor : Cursor} (h : StartsVisible cursor.rest) :
    cursor.readBreak = ([], cursor) := by
  obtain ⟨rest, index, line, column⟩ := cursor
  cases rest with
  | nil => rfl
  | cons c cs =>
      obtain ⟨-, hbreak, -⟩ := isVisible_iff.mp (h c rfl)
      have hreturn : c ≠ '\r' := by
        rintro rfl
        cases hbreak
      unfold Cursor.readBreak
      split
      · rename_i heq
        cases heq
        exact absurd rfl hreturn
      · rename_i heq
        cases heq
        simp [hbreak]
      · rfl

/-- A line end and the indentation of the next line are one gap. -/
theorem read_gap {next : List Char} (hnext : StartsVisible next)
    (least fuel width index line column : Nat) :
    Gap.read least (fuel + 2) {}
        ⟨'\n' :: (List.replicate width ' ' ++ next), index, line, column⟩ =
      some ({ broken := true, first := some '\n' },
        ⟨next, index + 1 + width, line + 1, width⟩) := by
  have hbreak : Cursor.readBreak ⟨'\n' :: (List.replicate width ' ' ++ next), index, line, column⟩ =
      (['\n'], ⟨List.replicate width ' ' ++ next, index + 1, line + 1, 0⟩) := rfl
  have hblank : isBlank '\n' = false := by decide
  have hskip : Cursor.skip ⟨List.replicate width ' ' ++ next, index + 1, line + 1, 0⟩ width =
      ⟨next, index + 1 + width, line + 1, width⟩ := by
    simp [Cursor.skip]
  rw [Gap.read]
  simp only [hblank, List.takeWhile_cons, Bool.false_and, Bool.false_eq_true, ite_false,
    List.length_nil]
  rw [show Cursor.skip ⟨'\n' :: (List.replicate width ' ' ++ next), index, line, column⟩ 0 =
    ⟨'\n' :: (List.replicate width ' ' ++ next), index, line, column⟩ from rfl, hbreak]
  simp only [Gap.addBreak, Bool.false_eq_true, ite_false]
  rw [Gap.read]
  simp only [takeWhile_isBlank_replicate hnext, List.length_replicate, hskip]
  rw [readBreak_of_startsVisible hnext]
  simp

/-- Letters, digits, underscores and dashes. -/
structure IsWord (cs : List Char) : Prop where
  ne_nil : cs ≠ []
  chars : ∀ c ∈ cs, isWordChar c = true

instance (cs : List Char) : Decidable (IsWord cs) :=
  decidable_of_iff ((!cs.isEmpty && cs.all isWordChar) = true) (by
    simp only [Bool.and_eq_true, Bool.not_eq_true', List.isEmpty_eq_false_iff, List.all_eq_true]
    exact ⟨fun h => ⟨h.1, h.2⟩, fun h => ⟨h.ne_nil, h.chars⟩⟩)

theorem IsWord.exists_cons {cs : List Char} (h : IsWord cs) :
    ∃ c rest, cs = c :: rest ∧ isWordChar c = true := by
  obtain ⟨c, rest, rfl⟩ := List.exists_cons_of_ne_nil h.ne_nil
  exact ⟨c, rest, rfl, h.chars c List.mem_cons_self⟩

theorem IsWord.head?_append {cs : List Char} (h : IsWord cs) {c : Char}
    (hc : isWordChar c = false) (rest : List Char) : (cs ++ rest).head? ≠ some c := by
  obtain ⟨d, ds, rfl, hd⟩ := h.exists_cons
  simpa using ne_of_isWordChar hd hc

theorem IsWord.startsVisible {cs : List Char} (h : IsWord cs) (rest : List Char) :
    StartsVisible (cs ++ rest) := by
  obtain ⟨c, cs, rfl, hc⟩ := h.exists_cons
  exact startsVisible_cons (isVisible_of_isWordChar hc) _

theorem IsWord.isPrintable {word : List Char} (h : IsWord word) (c : Char) (hc : c ∈ word) :
    isPrintable c = true :=
  isPrintable_of_isWordChar (h.chars c hc)

theorem atMark_of_head? {cursor : Cursor} {c : Char} (h : cursor.rest.head? ≠ some c) :
    cursor.atMark c = false := by
  obtain ⟨rest, index, line, column⟩ := cursor
  cases rest with
  | nil => simp [Cursor.atMark]
  | cons d ds =>
      have hne : d ≠ c := by simpa using h
      simp [Cursor.atMark, hne]

theorem atMark_of_column {cursor : Cursor} (h : 0 < cursor.column) (c : Char) :
    cursor.atMark c = false := by
  simp [Cursor.atMark, Nat.ne_of_gt h]

theorem skip_append (word rest : List Char) (index line column : Nat) :
    Cursor.skip ⟨word ++ rest, index, line, column⟩ word.length =
      ⟨rest, index + word.length, line, column + word.length⟩ := by
  simp [Cursor.skip]

/-- One piece of a plain scalar, with the gap behind it. -/
theorem readPlain_piece {least fuel : Nat} {text piece : List Char} {gap nextGap : Gap}
    {cursor next : Cursor} (hmark : cursor.atDocumentMark = false)
    (hcomment : cursor.rest.head? ≠ some '#') (hpiece : plainPiece false cursor.rest = some piece)
    (hne : piece ≠ [])
    (hgap : Gap.read least ((cursor.skip piece.length).rest.length + 1) {}
      (cursor.skip piece.length) = some (nextGap, next)) :
    readPlain false least (fuel + 1) text gap cursor =
      if nextGap.broken = true ∧ next.column < least then
        some (text ++ gap.join ++ piece, true, next)
      else readPlain false least fuel (text ++ gap.join ++ piece) nextGap next := by
  rw [readPlain, if_neg (by simp [hmark, hcomment]), hpiece]
  simp [hne, hgap]

/-- A plain scalar ends where no further piece starts. -/
theorem readPlain_end {least fuel : Nat} {text : List Char} {gap : Gap} {cursor : Cursor}
    (hpiece : plainPiece false cursor.rest = some []) :
    readPlain false least (fuel + 1) text gap cursor = some (text, gap.broken, cursor) := by
  rw [readPlain, hpiece]
  simp

/-- A plain scalar ends with its line if the next line is not indented further. -/
theorem readPlain_text {text next : List Char} (htext : IsWord text) (hnext : StartsVisible next)
    {least width : Nat} (hwidth : width < least) {column : Nat} (hcolumn : 0 < column)
    (fuel index line : Nat) :
    readPlain false least (fuel + 1) [] {}
        ⟨text ++ '\n' :: (List.replicate width ' ' ++ next), index, line, column⟩ =
      some (text, true, ⟨next, index + text.length + 1 + width, line + 1, width⟩) := by
  rw [readPlain_piece (by simp [Cursor.atDocumentMark, Cursor.atMark, Nat.ne_of_gt hcolumn])
    (htext.head?_append (by decide) _) (plainPiece_append htext.chars rfl) htext.ne_nil
    (by rw [skip_append, List.length_cons]; exact read_gap hnext _ _ _ _ _ _)]
  simp [Gap.join, hwidth]

/-- A plain scalar ends before the colon that makes it a key. -/
theorem readPlain_key {key after : List Char} (hkey : IsWord key) (hdash : key.head? ≠ some '-')
    (hafter : endsWord after = true) (least fuel index line column : Nat) :
    readPlain false least (fuel + 2) [] {} ⟨key ++ ':' :: after, index, line, column⟩ =
      some (key, false, ⟨':' :: after, index + key.length, line, column + key.length⟩) := by
  have hcolon : plainPiece false (':' :: after) = some [] := by
    simp [plainPiece, isSpacing, isBlank, isBreak, isSeparator, hafter]
  have hdash' : (key ++ ':' :: after).head? ≠ some '-' := by
    obtain ⟨c, rest, rfl, -⟩ := hkey.exists_cons
    simpa using hdash
  have hmark : Cursor.atDocumentMark ⟨key ++ ':' :: after, index, line, column⟩ = false := by
    rw [Cursor.atDocumentMark, atMark_of_head? hdash',
      atMark_of_head? (hkey.head?_append (by decide) _)]
    rfl
  have hgap : ∀ (fuel : Nat) (cursor : Cursor), cursor.rest = ':' :: after →
      Gap.read least (fuel + 1) {} cursor = some ({}, cursor) := by
    rintro fuel ⟨rest, index, line, column⟩ rfl
    rfl
  rw [readPlain_piece hmark (hkey.head?_append (by decide) _) (plainPiece_append hkey.chars hcolon)
    hkey.ne_nil (by rw [skip_append]; exact hgap _ _ rfl), if_neg (by simp),
    readPlain_end hcolon]
  simp [Gap.join]


/-! ## Between tokens -/

namespace Cursor

variable {cursor : Cursor}

theorem skipOrderMark_eq (cursor : Cursor) (h : cursor.rest.head? ≠ some (Char.ofNat 0xFEFF)) :
    cursor.skipOrderMark = cursor := by
  unfold skipOrderMark
  rw [if_neg (by simp [h])]

theorem skipComment_eq (h : StartsVisible cursor.rest) : cursor.skipComment = cursor := by
  unfold skipComment
  rw [if_neg]
  intro hcomment
  obtain ⟨-, -, hne, -⟩ := isVisible_iff.mp (h _ hcomment)
  exact hne rfl

end Cursor

namespace Scanner

variable {scanner : Scanner} {next : List Char} {index line column : Nat}

theorem head?_replicate_append_ne (hnext : StartsVisible next) (width : Nat) :
    (List.replicate width ' ' ++ next).head? ≠ some (Char.ofNat 0xFEFF) := by
  cases width with
  | zero =>
      intro h
      obtain ⟨-, -, -, hne⟩ := isVisible_iff.mp (hnext _ h)
      exact hne rfl
  | succ width => simp [List.replicate_succ]

/-- Blanks before a visible character are passed over. -/
theorem skipSpacing_blanks (width : Nat) (hnext : StartsVisible next)
    (hcursor : scanner.cursor = ⟨List.replicate width ' ' ++ next, index, line, column⟩)
    (fuel : Nat) :
    skipSpacing (fuel + 1) scanner =
      { scanner with cursor := ⟨next, index + width, line, column + width⟩ } := by
  have hmark := Cursor.skipOrderMark_eq scanner.cursor
    (by rw [hcursor]; exact head?_replicate_append_ne hnext width)
  have htake : ∀ tabs : Bool, (List.replicate width ' ' ++ next).takeWhile
      (fun c => c = ' ' || (tabs && c = '\t')) = List.replicate width ' ' := by
    intro tabs
    have hnone : next.takeWhile (fun c => c = ' ' || (tabs && c = '\t')) = [] := by
      cases next with
      | nil => rfl
      | cons c cs =>
          obtain ⟨hblank, -⟩ := isVisible_iff.mp (hnext c rfl)
          simp only [isBlank, Bool.or_eq_false_iff, decide_eq_false_iff_not] at hblank
          simp [hblank]
    rw [List.takeWhile_append_of_pos (by simp), hnone, List.append_nil]
  have hskip : ∀ tabs : Bool, scanner.cursor.skipWhile (fun c => c = ' ' || (tabs && c = '\t')) =
      ⟨next, index + width, line, column + width⟩ := by
    intro tabs
    rw [Cursor.skipWhile, hcursor, htake, skip_append, List.length_replicate]
  rw [skipSpacing]
  simp only [hmark, hskip]
  rw [Cursor.skipComment_eq hnext, readBreak_of_startsVisible hnext]

theorem skipSpacing_eq (h : StartsVisible scanner.cursor.rest) (fuel : Nat) :
    skipSpacing (fuel + 1) scanner = scanner := by
  have hcursor : scanner.cursor = ⟨List.replicate 0 ' ' ++ scanner.cursor.rest,
      scanner.cursor.index, scanner.cursor.line, scanner.cursor.column⟩ := rfl
  rw [skipSpacing_blanks 0 h hcursor]
  rfl

/-- A line end and the indentation of the next line are passed over, and a key can start there. -/
theorem skipSpacing_break {width : Nat} (hnext : StartsVisible next)
    (hcursor : scanner.cursor =
      ⟨'\n' :: (List.replicate width ' ' ++ next), index, line, column⟩)
    (hflow : scanner.enclosing = []) (fuel : Nat) :
    skipSpacing (fuel + 2) scanner =
      { scanner with
        cursor := ⟨next, index + 1 + width, line + 1, width⟩, keyAllowed := true } := by
  have hmark := Cursor.skipOrderMark_eq scanner.cursor (by rw [hcursor]; simp)
  have hstay : ∀ tabs : Bool,
      (scanner.cursor.skipWhile fun c => c = ' ' || (tabs && c = '\t')).skipComment =
        ⟨'\n' :: (List.replicate width ' ' ++ next), index, line, column⟩ := by
    intro tabs
    rw [hcursor]
    cases tabs <;> rfl
  have hallowed : (scanner.keyAllowed || !scanner.inFlow) = true := by simp [inFlow, hflow]
  rw [skipSpacing]
  simp only [hmark, hstay, hallowed]
  rw [show Cursor.readBreak ⟨'\n' :: (List.replicate width ' ' ++ next), index, line, column⟩ =
    (['\n'], ⟨List.replicate width ' ' ++ next, index + 1, line + 1, 0⟩) from rfl]
  simp only
  rw [skipSpacing_blanks width hnext rfl, Nat.zero_add]

end Scanner

end BranchWitness.Yaml
