import BranchWitness.Proofs.Yaml.Words

/-!
# Steps of the scanner

From one line of a text in block style to the next, the scanner keeps no more than its tokens and
the indentations of the open blocks.  A key takes two steps, its word and its colon, and a text
behind the colon one.  `Scanner.Covers` says that the scanner gets from the start of one line to
the start of another; it composes, and the fuel it needs is in the characters it passes.
-/

namespace BranchWitness.Yaml

/-- What the scanner keeps from one line to the next: the tokens so far, the latest first, and the
indentations of the open blocks. -/
structure Progress where
  tokens : List Token := []
  indent : Int := -1
  indents : List Int := []

namespace Progress

variable {progress : Progress} {width : Nat}

/-- Add tokens. -/
def push (progress : Progress) (tokens : List Token) : Progress :=
  { progress with tokens := tokens.reverse ++ progress.tokens }

/-- Open a mapping at a column, unless a block is open there. -/
def openAt (progress : Progress) (width : Nat) : Progress :=
  if progress.indent < width then
    ⟨.blockMapping :: progress.tokens, width, progress.indent :: progress.indents⟩
  else progress

@[simp] theorem push_indent (tokens : List Token) :
    (progress.push tokens).indent = progress.indent :=
  rfl

@[simp] theorem push_push (tokens later : List Token) :
    (progress.push tokens).push later = progress.push (tokens ++ later) := by
  simp [push]

theorem openAt_indent (h : progress.indent ≤ width) : (progress.openAt width).indent = width := by
  unfold openAt
  split
  · rfl
  · omega

theorem openAt_eq_self (h : progress.indent = width) : progress.openAt width = progress :=
  if_neg (by omega)

/-- The scanner at a cursor, where a key can start. -/
def scanner (progress : Progress) (cursor : Cursor) : Scanner :=
  { cursor, tokens := progress.tokens, indent := progress.indent, indents := progress.indents }

/-- The scanner behind the colon of a key. -/
def afterColon (progress : Progress) (cursor : Cursor) : Scanner :=
  { progress.scanner cursor with keyAllowed := false }

end Progress

namespace Scanner

variable {scanner : Scanner} {progress : Progress}

/-! ## Going to the next token -/

theorem unroll_of_le {column : Int} (h : scanner.indent ≤ column) :
    scanner.unroll column = scanner := by
  obtain ⟨cursor, tokens, indent, indents, candidate, enclosing, keyAllowed⟩ := scanner
  unfold unroll
  split
  · rfl
  · cases indents with
    | nil => rfl
    | cons outer indents => exact if_neg (Int.not_lt.mpr h)

/-- A word starts a plain scalar; a dash that stands alone starts an entry. -/
theorem token_of_isWordChar {c : Char} {rest : List Char} (hflow : scanner.enclosing = [])
    (hrest : scanner.cursor.rest = c :: rest) (hc : isWordChar c = true)
    (hmark : scanner.cursor.atMark '-' = false) (hdash : c = '-' → endsWord rest = false) :
    scanner.token c rest = scanner.plain := by
  have hmarks : c ∉ "%[]\x7b\x7d,?:*&!|>'\"#@\x60.".toList := by
    have hmarks : "%[]\x7b\x7d,?:*&!|>'\"#@\x60.".toList.all (!isWordChar ·) = true := by decide
    intro hmem
    have hword := List.all_eq_true.mp hmarks c hmem
    simp [hc] at hword
  simp only [String.reduceToList, List.mem_cons, List.not_mem_nil, or_false, not_or] at hmarks
  have hflow : scanner.inFlow = false := by simp [inFlow, hflow]
  have hdot : scanner.cursor.atMark '.' = false := atMark_of_head? (by simp [hrest, hmarks])
  have hentry : (decide (c = '-') && endsWord rest) = false := by
    by_cases h : c = '-' <;> simp [h, hdash]
  have hplain : startsPlain false c rest = true := by
    unfold startsPlain
    split
    · rename_i h
      have := hdash h
      cases rest with
      | nil => rfl
      | cons d ds =>
          simp only [endsWord, List.head?_cons, Option.all_some, isSpacing,
            Bool.or_eq_false_iff] at this
          simp [this]
    · simp [isSpacing_of_isWordChar hc, isFlowMark, hmarks]
  unfold token
  simp [hmark, hdot, hflow, hentry, hplain, hmarks]

/-- The scanner at a visible character stays there, if its candidate is fresh and its blocks go
on. -/
theorem approach_eq (hvisible : StartsVisible scanner.cursor.rest) (hflow : scanner.enclosing = [])
    (hfresh : refresh scanner.cursor scanner.candidate = some scanner.candidate)
    (hindent : scanner.indent ≤ scanner.cursor.column) : scanner.approach = some scanner := by
  have hstale : scanner.dropStale = some scanner := by
    obtain ⟨cursor, tokens, indent, indents, candidate, enclosing, keyAllowed⟩ := scanner
    cases hflow
    simp only [dropStale, hfresh]
    rfl
  unfold approach
  rw [skipSpacing_eq hvisible]
  simp only [hstale, Option.bind_eq_bind, Option.bind_some, unroll_of_le hindent]

theorem approach_blanks {next : List Char} {index line column : Nat} (width : Nat)
    (hnext : StartsVisible next)
    (hcursor : scanner.cursor = ⟨List.replicate width ' ' ++ next, index, line, column⟩) :
    scanner.approach =
      { scanner with cursor := ⟨next, index + width, line, column + width⟩ }.approach := by
  unfold approach
  rw [skipSpacing_blanks width hnext hcursor, skipSpacing_eq hnext]

theorem approach_break {next : List Char} {index line column : Nat} (width : Nat)
    (hnext : StartsVisible next) (hflow : scanner.enclosing = [])
    (hcursor : scanner.cursor =
      ⟨'\n' :: (List.replicate width ' ' ++ next), index, line, column⟩) :
    scanner.approach =
      { scanner with
        cursor := ⟨next, index + 1 + width, line + 1, width⟩, keyAllowed := true }.approach := by
  unfold approach
  rw [show scanner.cursor.rest.length + 1 = (List.replicate width ' ' ++ next).length + 2 by
    rw [hcursor]; rfl, skipSpacing_break hnext hcursor hflow, skipSpacing_eq hnext]

theorem run_congr {other : Scanner} (h : scanner.approach = other.approach) (fuel : Nat) :
    run (fuel + 1) scanner = run (fuel + 1) other := by
  rw [run, run, h]

theorem run_step {next after : Scanner} {c : Char} {rest : List Char}
    (happroach : scanner.approach = some next) (hrest : next.cursor.rest = c :: rest)
    (htoken : next.token c rest = some after) (fuel : Nat) :
    run (fuel + 1) scanner = run fuel after := by
  rw [run, happroach]
  simp only [Option.bind_eq_bind, Option.bind_some]
  rw [hrest]
  simp only [htoken, Option.bind_some]

/-! ## Keys -/

theorem emitAt_append (later : List Token) {earlier : List Token}
    (h : scanner.tokens = later ++ earlier) (token : Token) :
    scanner.emitAt earlier.length token =
      { scanner with tokens := later ++ token :: earlier } := by
  simp [emitAt, h]

/-- The scanner between a key and its colon. -/
def beforeColon (progress : Progress) (key after : List Char) (index line width : Nat) : Scanner :=
  { progress.scanner ⟨':' :: after, index + key.length, line, width + key.length⟩ with
    tokens := .scalar (String.ofList key) true :: progress.tokens
    candidate := some ⟨progress.indent = width, progress.tokens.length, index, line, width⟩
    keyAllowed := false }

variable {key after : List Char} {index line width : Nat}

theorem plain_key (hkey : IsWord key) (hdash : key.head? ≠ some '-')
    (hafter : endsWord after = true) :
    (progress.scanner ⟨key ++ ':' :: after, index, line, width⟩).plain =
      some (beforeColon progress key after index line width) := by
  have hsave : (progress.scanner ⟨key ++ ':' :: after, index, line, width⟩).saveCandidate =
      some { progress.scanner ⟨key ++ ':' :: after, index, line, width⟩ with
        candidate := some ⟨progress.indent = width, progress.tokens.length, index, line, width⟩ } :=
    rfl
  have hread := readPlain_key hkey hdash hafter (progress.indent + 1).toNat
    (key ++ after).length index line width
  have hlength : (key ++ ':' :: after).length + 1 = (key ++ after).length + 2 := by simp; omega
  unfold plain
  -- the candidate is saved before the word is read, so it has the place where the word starts
  rw [hsave]
  simp only [Option.bind_eq_bind, Option.bind_some]
  simp only [Progress.scanner, inFlow] at hread ⊢
  rw [hlength]
  simp only [List.isEmpty_nil, Bool.not_true, hread, Option.bind_some]
  rfl

/-- The colon behind a key puts the key's token before it, and the one that opens a mapping if none
is open at its column. -/
theorem colon_key :
    (beforeColon progress key after index line width).colon =
      some (((progress.openAt width).push
        [.key, .scalar (String.ofList key) true, .value]).afterColon
          ⟨after, index + key.length + 1, line, width + key.length + 1⟩) := by
  unfold colon
  simp only [beforeColon]
  -- the key's token goes before its scalar, and the mapping's before both
  rw [emitAt_append [.scalar (String.ofList key) true] rfl]
  by_cases hopen : progress.indent < width
  · rw [Progress.openAt, if_pos hopen, roll, if_neg]
    · rw [emitAt_append [.scalar (String.ofList key) true, .key] rfl]
      rfl
    · simpa [Progress.scanner, inFlow] using hopen
  · rw [Progress.openAt, if_neg hopen, roll, if_pos]
    · rfl
    · simpa [Progress.scanner, inFlow] using hopen

/-- A key takes two steps, its word and its colon. -/
theorem run_key (hkey : IsWord key) (hdash : key.head? ≠ some '-') (hshort : key.length ≤ 1024)
    (hafter : endsWord after = true) (hindent : progress.indent ≤ width) (fuel : Nat) :
    run (fuel + 2) (progress.scanner ⟨key ++ ':' :: after, index, line, width⟩) =
      run fuel (((progress.openAt width).push
        [.key, .scalar (String.ofList key) true, .value]).afterColon
          ⟨after, index + key.length + 1, line, width + key.length + 1⟩) := by
  obtain ⟨c, rest, hcons, hc⟩ := hkey.exists_cons
  have hrest : key ++ ':' :: after = c :: (rest ++ ':' :: after) := by rw [hcons]; rfl
  have hdash' : c ≠ '-' := by simpa [hcons] using hdash
  have hword : (progress.scanner ⟨key ++ ':' :: after, index, line, width⟩).token c
      (rest ++ ':' :: after) = some (beforeColon progress key after index line width) := by
    rw [token_of_isWordChar rfl hrest hc _ (fun h => absurd h hdash')]
    · exact plain_key hkey hdash hafter
    · exact atMark_of_head? (by simpa [Progress.scanner, hrest] using hdash')
  have hcolon : (beforeColon progress key after index line width).token ':' after =
      (beforeColon progress key after index line width).colon := by
    have hmark : ∀ c, c ≠ ':' →
        (beforeColon progress key after index line width).cursor.atMark c = false := fun c hc =>
      atMark_of_head? (by simpa [beforeColon, Progress.scanner] using hc.symm)
    unfold token
    rw [hmark '-' (by decide), hmark '.' (by decide)]
    simp [hafter]
  have hcolonApproach : (beforeColon progress key after index line width).approach =
      some (beforeColon progress key after index line width) :=
    approach_eq (startsVisible_cons (by decide) _) rfl
      (if_neg (by simp [beforeColon, Progress.scanner]; omega))
      (by simp [beforeColon, Progress.scanner]; omega)
  rw [run_step (approach_eq (hkey.startsVisible _) rfl rfl hindent) hrest hword,
    run_step hcolonApproach rfl (hcolon.trans colon_key)]

/-! ## Texts behind a colon -/

theorem approach_text {text tail : List Char} {column : Nat} (htext : IsWord text)
    (hindent : progress.indent ≤ column) :
    (progress.afterColon ⟨' ' :: (text ++ tail), index, line, column⟩).approach =
      some (progress.afterColon ⟨text ++ tail, index + 1, line, column + 1⟩) := by
  have hblank : (progress.afterColon ⟨' ' :: (text ++ tail), index, line, column⟩).approach =
      (progress.afterColon ⟨text ++ tail, index + 1, line, column + 1⟩).approach :=
    approach_blanks 1 (htext.startsVisible tail) rfl
  have hindent' : progress.indent ≤ ((column + 1 : Nat) : Int) := by omega
  rw [hblank]
  exact approach_eq (htext.startsVisible tail) rfl rfl hindent'

theorem plain_text {text next : List Char} {column below : Nat} (htext : IsWord text)
    (hnext : StartsVisible next) (hbelow : (below : Int) ≤ progress.indent) (hcolumn : 0 < column) :
    (progress.afterColon
        ⟨text ++ '\n' :: (List.replicate below ' ' ++ next), index, line, column⟩).plain =
      some ((progress.push [.scalar (String.ofList text) true]).scanner
        ⟨next, index + text.length + 1 + below, line + 1, below⟩) := by
  have hread := readPlain_text htext hnext (show below < (progress.indent + 1).toNat by omega)
    hcolumn (text ++ '\n' :: (List.replicate below ' ' ++ next)).length index line
  unfold plain saveCandidate
  simp only [Progress.afterColon, Progress.scanner, inFlow, Bool.false_eq_true, ite_false,
    List.isEmpty_nil, Bool.not_true, Option.bind_eq_bind, Option.bind_some, hread]
  rfl

/-- A text behind a colon takes one step, which ends at the next line. -/
theorem run_text {text next : List Char} {column below : Nat} (htext : IsWord text)
    (hdash : text ≠ ['-']) (hnext : StartsVisible next) (hbelow : (below : Int) ≤ progress.indent)
    (hindent : progress.indent ≤ column) (fuel : Nat) :
    run (fuel + 1) (progress.afterColon
        ⟨' ' :: (text ++ '\n' :: (List.replicate below ' ' ++ next)), index, line, column⟩) =
      run fuel ((progress.push [.scalar (String.ofList text) true]).scanner
        ⟨next, index + 1 + text.length + 1 + below, line + 1, below⟩) := by
  obtain ⟨c, rest, hcons, hc⟩ := htext.exists_cons
  have hrest : text ++ '\n' :: (List.replicate below ' ' ++ next) =
      c :: (rest ++ '\n' :: (List.replicate below ' ' ++ next)) := by rw [hcons]; rfl
  have hentry : c = '-' →
      endsWord (rest ++ '\n' :: (List.replicate below ' ' ++ next)) = false := by
    rintro rfl
    cases rest with
    | nil => exact absurd hcons hdash
    | cons d ds =>
        have hd : isWordChar d = true := htext.chars d (by simp [hcons])
        simp [endsWord, isSpacing_of_isWordChar hd]
  refine run_step (approach_text htext hindent) hrest ?_ fuel
  rw [token_of_isWordChar rfl hrest hc (atMark_of_column (Nat.succ_pos column) _) hentry]
  exact plain_text htext hnext hbelow (Nat.succ_pos column)

/-! ## From line to line -/

/-- What the scanner keeps at the start of a text has become `after` where the rest of the text
starts, each at the start of a line.  The steps in between are no more than the characters. -/
def Covers (before : Progress) (text : List Char) (after : Progress) (rest : List Char) : Prop :=
  ∃ steps, steps + rest.length ≤ text.length ∧ ∀ fuel index line, ∃ index' line',
    run (fuel + steps + 1) (before.scanner ⟨text, index, line, 0⟩) =
      run (fuel + 1) (after.scanner ⟨rest, index', line', 0⟩)

namespace Covers

variable {first second third : Progress} {text middle rest : List Char}

theorem refl (progress : Progress) (text : List Char) : Covers progress text progress text :=
  ⟨0, by simp, fun _ index line => ⟨index, line, rfl⟩⟩

theorem trans (h : Covers first text second middle) (h' : Covers second middle third rest) :
    Covers first text third rest := by
  obtain ⟨steps, hsteps, hrun⟩ := h
  obtain ⟨steps', hsteps', hrun'⟩ := h'
  refine ⟨steps' + steps, by omega, fun fuel index line => ?_⟩
  obtain ⟨index', line', hfirst⟩ := hrun (fuel + steps') index line
  obtain ⟨index'', line'', hsecond⟩ := hrun' fuel index' line'
  exact ⟨index'', line'', by rw [← Nat.add_assoc, hfirst, hsecond]⟩

end Covers

end Scanner

end BranchWitness.Yaml
