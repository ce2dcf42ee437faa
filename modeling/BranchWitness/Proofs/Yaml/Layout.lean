import BranchWitness.Proofs.Yaml.Steps

/-!
# Texts in block style

A document in block style has a line for each key.  Its value is a word on the same line, or a
mapping on the lines below, which are indented by two blanks.  The scanner finds in such a text
the tokens of its keys and values, and opens and closes the mappings where the indentation
changes.
-/

namespace BranchWitness.Yaml

/-- The rest of a text starts with a line that is indented by at most `width`. -/
def IndentedWithin (width : Nat) (rest : List Char) : Prop :=
  ∃ below next, below ≤ width ∧ StartsVisible next ∧ rest = List.replicate below ' ' ++ next

/-! ## Lines -/

/-- A word that is read as a text and can be a key. -/
structure Key where
  name : String
  isWord : IsWord name.toList
  starts : name.toList.head? ≠ some '-'
  short : name.toList.length ≤ 1024
  reads : ofPlain? name.toList = some (str name)

/-- A word with the value it is read as. -/
structure Leaf where
  text : String
  value : Yaml
  isWord : IsWord text.toList
  ne_dash : text.toList ≠ ['-']
  reads : ofPlain? text.toList = some value

/-- A line with a key and a value. -/
structure Line where
  key : Key
  leaf : Leaf

namespace Key

def tokens (key : Key) : List Token :=
  [.key, .scalar key.name true, .value]

end Key

namespace Line

/-- The text of a line. -/
def render (width : Nat) (line : Line) : List Char :=
  List.replicate width ' ' ++
    (line.key.name.toList ++ ':' :: ' ' :: (line.leaf.text.toList ++ ['\n']))

def tokens (line : Line) : List Token :=
  line.key.tokens ++ [.scalar line.leaf.text true]

end Line

theorem IndentedWithin.mono {below width : Nat} {rest : List Char} (h : below ≤ width)
    (hrest : IndentedWithin below rest) : IndentedWithin width rest := by
  obtain ⟨actual, next, hactual, hnext, rfl⟩ := hrest
  exact ⟨actual, next, Nat.le_trans hactual h, hnext, rfl⟩

theorem IndentedWithin.line (line : Line) (width : Nat) (rest : List Char) :
    IndentedWithin width (line.render width ++ rest) :=
  ⟨width, line.key.name.toList ++ (':' :: ' ' :: (line.leaf.text.toList ++ '\n' :: rest)),
    Nat.le_refl _, line.key.isWord.startsVisible _, by simp [Line.render]⟩

theorem IndentedWithin.lines {width : Nat} {rest : List Char} (hrest : IndentedWithin width rest)
    (lines : List Line) : IndentedWithin width (lines.flatMap (Line.render width) ++ rest) := by
  cases lines with
  | nil => exact hrest
  | cons line lines =>
      rw [List.flatMap_cons, List.append_assoc]
      exact .line line width _

namespace Scanner

variable {scanner : Scanner} {progress : Progress} {width : Nat} {rest : List Char}

theorem run_indented {next : List Char} (hnext : StartsVisible next) (fuel index line : Nat) :
    run (fuel + 1) (progress.scanner ⟨List.replicate width ' ' ++ next, index, line, 0⟩) =
      run (fuel + 1) (progress.scanner ⟨next, index + width, line, width⟩) := by
  rw [run_congr (approach_blanks width hnext rfl), Nat.zero_add]
  rfl

theorem covers_line (line : Line) (hindent : progress.indent ≤ width)
    (hrest : IndentedWithin width rest) :
    Covers progress (line.render width ++ rest) ((progress.openAt width).push line.tokens)
      rest := by
  obtain ⟨below, next, hbelow, hnext, rfl⟩ := hrest
  have hrender : line.render width ++ (List.replicate below ' ' ++ next) =
      List.replicate width ' ' ++ (line.key.name.toList ++ ':' :: ' ' ::
        (line.leaf.text.toList ++ '\n' :: (List.replicate below ' ' ++ next))) := by
    simp [Line.render]
  have hopen := Progress.openAt_indent hindent
  rw [hrender]
  refine ⟨3, by simp; omega, fun fuel index row => ?_⟩
  rw [run_indented (line.key.isWord.startsVisible _),
    run_key line.key.isWord line.key.starts line.key.short rfl hindent,
    run_text line.leaf.isWord line.leaf.ne_dash hnext (by simp [hopen, hbelow])
      (by simp [hopen]; omega), ← run_indented hnext, Progress.push_push,
    String.ofList_toList, String.ofList_toList]
  exact ⟨_, _, rfl⟩

theorem covers_lines (lines : List Line) (hindent : progress.indent = width)
    (hrest : IndentedWithin width rest) :
    Covers progress (lines.flatMap (Line.render width) ++ rest)
      (progress.push (lines.flatMap Line.tokens)) rest := by
  induction lines generalizing progress with
  | nil => exact Covers.refl _ _
  | cons line lines ih =>
      have hfirst := covers_line line (Int.le_of_eq hindent) (hrest.lines lines)
      rw [Progress.openAt_eq_self hindent] at hfirst
      have hindent' : (progress.push line.tokens).indent = width := hindent
      have hlines := ih hindent'
      rw [Progress.push_push] at hlines
      rw [List.flatMap_cons, List.flatMap_cons, List.append_assoc]
      exact hfirst.trans hlines

/-- The blocks to close are those given, not those that the scanner has. -/
theorem close_progress (progress other : Progress) (cursor : Cursor) (column : Int)
    (indents : List Int) (indent : Int) (tokens : List Token) :
    unroll.close (progress.scanner cursor) column indents indent tokens =
      unroll.close (other.scanner cursor) column indents indent tokens := by
  induction indents generalizing indent tokens with
  | nil => rfl
  | cons outer indents ih =>
      rw [unroll.close, unroll.close, ih]
      rfl

/-- A line that is indented less than the innermost block closes it. -/
theorem covers_close {tokens : List Token} {indent outer : Int} {indents : List Int}
    (hrest : IndentedWithin width rest) (hindent : (width : Int) < indent) :
    Covers ⟨tokens, indent, outer :: indents⟩ rest ⟨.blockEnd :: tokens, outer, indents⟩ rest := by
  obtain ⟨below, next, hbelow, hnext, rfl⟩ := hrest
  refine ⟨0, by simp, fun fuel index line => ⟨index, line, ?_⟩⟩
  have happroach : ∀ progress : Progress,
      (progress.scanner ⟨next, index + below, line, below⟩).approach =
        some ((progress.scanner ⟨next, index + below, line, below⟩).unroll below) := by
    intro progress
    unfold approach
    rw [skipSpacing_eq hnext]
    rfl
  have hunroll : ((Progress.mk tokens indent (outer :: indents)).scanner
      ⟨next, index + below, line, below⟩).unroll below =
        ((Progress.mk (.blockEnd :: tokens) outer indents).scanner
          ⟨next, index + below, line, below⟩).unroll below :=
    (if_pos (show indent > (below : Int) by omega)).trans (close_progress _ _ _ _ _ _ _)
  -- past the indentation of the line both sides close blocks down to the same column
  rw [run_indented hnext, run_indented hnext]
  exact run_congr (by rw [happroach, happroach, hunroll]) fuel

/-- A block that the next line is not indented enough for. -/
theorem covers_block {lines : List Line} (hne : lines ≠ []) {below : Nat} (hbelow : below < width)
    (hindent : progress.indent < width) (hrest : IndentedWithin below rest) :
    Covers progress (lines.flatMap (Line.render width) ++ rest)
      (progress.push (.blockMapping :: lines.flatMap Line.tokens ++ [.blockEnd])) rest := by
  obtain ⟨line, lines, rfl⟩ := List.exists_cons_of_ne_nil hne
  have hwithin := hrest.mono (Nat.le_of_lt hbelow)
  -- the first line opens the block, and the others find it open
  have hfirst := covers_line line (Int.le_of_lt hindent) (hwithin.lines lines)
  have hlines := covers_lines lines
    (show ((progress.openAt width).push line.tokens).indent = width from
      Progress.openAt_indent (Int.le_of_lt hindent)) hwithin
  rw [Progress.openAt, if_pos hindent, Progress.push_push] at hlines
  rw [Progress.openAt, if_pos hindent] at hfirst
  have hclose := hfirst.trans (hlines.trans (covers_close hrest (Int.ofNat_lt.mpr hbelow)))
  rw [List.flatMap_cons, List.flatMap_cons, List.append_assoc]
  simpa [Progress.push] using hclose

/-- A key whose value starts on the next line. -/
theorem covers_key (key : Key) (hindent : progress.indent ≤ width)
    {below : Nat} (hrest : IndentedWithin below rest) :
    Covers progress (List.replicate width ' ' ++ (key.name.toList ++ ':' :: '\n' :: rest))
      ((progress.openAt width).push key.tokens) rest := by
  obtain ⟨below, next, -, hnext, rfl⟩ := hrest
  refine ⟨2, by simp; omega, fun fuel index line => ?_⟩
  rw [run_indented (key.isWord.startsVisible _),
    run_key key.isWord key.starts key.short rfl hindent,
    run_congr (approach_break below hnext rfl rfl), String.ofList_toList]
  refine ⟨index + width + key.name.toList.length + 1 + 1, line + 1, ?_⟩
  exact (run_indented hnext _ _ _).symm

end Scanner

/-! ## Documents -/

/-- A member of a document: a line, or a key with a mapping below it. -/
inductive Member where
  | single (line : Line)
  | block (key : Key) (lines : List Line) (ne_nil : lines ≠ [])
      (distinct : (lines.map fun line => line.key.name).Nodup)

namespace Member

/-- The key of a member. -/
def key : Member → Key
  | single line => line.key
  | block key _ _ _ => key

/-- The text of a member. -/
def render : Member → List Char
  | single line => line.render 0
  | block key lines _ _ => key.name.toList ++ ':' :: '\n' :: lines.flatMap (Line.render 2)

def tokens : Member → List Token
  | single line => line.tokens
  | block key lines _ _ =>
      key.tokens ++ .blockMapping :: lines.flatMap Line.tokens ++ [.blockEnd]

theorem startsVisible (member : Member) (rest : List Char) :
    StartsVisible (member.render ++ rest) := by
  cases member with
  | single line =>
      rw [render, Line.render, List.append_assoc, List.append_assoc]
      exact line.key.isWord.startsVisible _
  | block key lines ne_nil distinct =>
      rw [render, List.append_assoc]
      exact key.isWord.startsVisible _

theorem startsVisible_members {rest : List Char} (hrest : StartsVisible rest)
    (members : List Member) : StartsVisible (members.flatMap render ++ rest) := by
  cases members with
  | nil => exact hrest
  | cons member members =>
      rw [List.flatMap_cons, List.append_assoc]
      exact member.startsVisible _

end Member

/-- A document: members with different keys, at least one. -/
structure Document where
  members : List Member
  ne_nil : members ≠ []
  distinct : (members.map fun member => member.key.name).Nodup

namespace Document

/-- The text of a document. -/
def render (document : Document) : List Char :=
  document.members.flatMap Member.render

def tokens (document : Document) : List Token :=
  .blockMapping :: (document.members.flatMap Member.tokens ++ [.blockEnd])

end Document

namespace Scanner

variable {progress : Progress} {rest : List Char}

theorem covers_member (member : Member) (hindent : progress.indent ≤ 0)
    (hrest : StartsVisible rest) :
    Covers progress (member.render ++ rest) ((progress.openAt 0).push member.tokens) rest := by
  have hwithin : IndentedWithin 0 rest := ⟨0, rest, Nat.le_refl _, hrest, rfl⟩
  cases member with
  | single line => exact covers_line line hindent hwithin
  | block key lines ne_nil distinct =>
      have hindented : IndentedWithin 2 (lines.flatMap (Line.render 2) ++ rest) :=
        (hwithin.mono (by decide)).lines lines
      have hkey : Covers progress
          (key.name.toList ++ ':' :: '\n' :: (lines.flatMap (Line.render 2) ++ rest))
          ((progress.openAt 0).push key.tokens) (lines.flatMap (Line.render 2) ++ rest) :=
        covers_key key hindent hindented
      have hopen : ((progress.openAt 0).push key.tokens).indent < (2 : Nat) := by
        simp [Progress.openAt_indent hindent]
      have hlines := covers_block ne_nil (by decide) hopen hwithin
      rw [Progress.push_push] at hlines
      simpa [Member.render, Member.tokens] using hkey.trans hlines

theorem covers_members (members : List Member) (hindent : progress.indent = 0)
    (hrest : StartsVisible rest) :
    Covers progress (members.flatMap Member.render ++ rest)
      (progress.push (members.flatMap Member.tokens)) rest := by
  induction members generalizing progress with
  | nil => exact Covers.refl _ _
  | cons member members ih =>
      have hfirst := covers_member member (Int.le_of_eq hindent)
        (Member.startsVisible_members hrest members)
      rw [Progress.openAt_eq_self hindent] at hfirst
      have hindent' : (progress.push member.tokens).indent = 0 := hindent
      have hmembers := ih hindent'
      rw [Progress.push_push] at hmembers
      rw [List.flatMap_cons, List.flatMap_cons, List.append_assoc]
      exact hfirst.trans hmembers

/-- The end of the text closes the block of its members. -/
theorem run_end (tokens : List Token) (fuel index line : Nat) :
    run (fuel + 1) ((Progress.mk tokens 0 [-1]).scanner ⟨[], index, line, 0⟩) =
      some (tokens.reverse ++ [.blockEnd]) := by
  have hrun : run (fuel + 1) ((Progress.mk tokens 0 [-1]).scanner ⟨[], index, line, 0⟩) =
      some (Token.blockEnd :: tokens).reverse := rfl
  rw [hrun, List.reverse_cons]

end Scanner

theorem Line.isPrintable_render (line : Line) (width : Nat) :
    ∀ c ∈ line.render width, isPrintable c = true := by
  intro c hc
  simp only [render, List.mem_append, List.mem_replicate, List.mem_cons, List.not_mem_nil,
    or_false] at hc
  rcases hc with ⟨-, rfl⟩ | hc | rfl | rfl | hc | rfl
  · decide
  · exact line.key.isWord.isPrintable c hc
  · decide
  · decide
  · exact line.leaf.isWord.isPrintable c hc
  · decide

theorem Member.isPrintable_render (member : Member) :
    ∀ c ∈ member.render, isPrintable c = true := by
  cases member with
  | single line => exact line.isPrintable_render 0
  | block key lines ne_nil distinct =>
      intro c hc
      simp only [render, List.mem_append, List.mem_cons, List.mem_flatMap] at hc
      rcases hc with hc | rfl | rfl | ⟨line, -, hc⟩
      · exact key.isWord.isPrintable c hc
      · decide
      · decide
      · exact line.isPrintable_render 2 c hc

namespace Document

theorem isPrintable_render (document : Document) : document.render.all isPrintable = true := by
  rw [List.all_eq_true]
  intro c hc
  obtain ⟨member, -, hc⟩ := List.mem_flatMap.mp hc
  exact member.isPrintable_render c hc

theorem covers_render (document : Document) :
    Scanner.Covers {} document.render
      ((Progress.openAt {} 0).push (document.members.flatMap Member.tokens)) [] := by
  obtain ⟨member, members, hcons⟩ := List.exists_cons_of_ne_nil document.ne_nil
  have hend : StartsVisible [] := fun c hc => by cases hc
  have hindent : ((Progress.openAt {} 0).push member.tokens).indent = 0 := rfl
  have hfirst := Scanner.covers_member member (show ({} : Progress).indent ≤ 0 by decide)
    (Member.startsVisible_members hend members)
  have hmembers := Scanner.covers_members members hindent hend
  rw [Progress.push_push] at hmembers
  simpa [render, hcons] using hfirst.trans hmembers

/-- The scanner finds the tokens of a document in its text. -/
theorem scan_render (document : Document) : Token.scan document.render = some document.tokens := by
  obtain ⟨steps, hsteps, hrun⟩ := document.covers_render
  rw [List.length_nil] at hsteps
  have hfuel : document.render.length + 1 = document.render.length - steps + steps + 1 := by omega
  obtain ⟨index, line, hrun⟩ := hrun (document.render.length - steps) 0 0
  rw [← hfuel] at hrun
  rw [Token.scan, if_pos document.isPrintable_render]
  refine hrun.trans ((Scanner.run_end _ _ _ _).trans ?_)
  simp [Progress.openAt, tokens]

end Document

end BranchWitness.Yaml
