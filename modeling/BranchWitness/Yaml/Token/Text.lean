import BranchWitness.Yaml.Cursor
import BranchWitness.Yaml.Scalar

/-!
# The texts of scalars

A scalar is plain, between quotes, or a block of indented lines.  Plain and quoted scalars may go
over several lines and are *folded*: a single line end becomes a space, and of several the first
is dropped.  A block is kept line by line, or folded between lines that are not indented further.

The readers take a bound on the number of lines, which the length of the text always meets.
-/

namespace BranchWitness.Yaml

/-! ## Gaps -/

/-- The white space between two pieces of a scalar. -/
structure Gap where
  /-- The blanks before any line end. -/
  blanks : List Char := []
  /-- Whether a line ends in the gap. -/
  broken : Bool := false
  /-- The line end that may be folded. -/
  first : Option Char := none
  /-- The line ends after it. -/
  others : List Char := []

namespace Gap

/-- Add a line end.  The first one makes the blanks before it disappear. -/
def addBreak (gap : Gap) (c : Char) : Gap :=
  if gap.broken then { gap with others := gap.others ++ [c] }
  else { broken := true, first := some c }

/-- What the gap stands for in the text. -/
def join (gap : Gap) : List Char :=
  if gap.broken then
    match gap.first with
    | none => gap.others
    | some '\n' => if gap.others.isEmpty then [' '] else gap.others
    | some c => c :: gap.others
  else gap.blanks

/-- Read the white space of a gap.  On a new line, no tab may stand before column `least`. -/
def read (least : Nat) : (fuel : Nat) → Gap → Cursor → Option (Gap × Cursor)
  | 0, _, _ => none
  | fuel + 1, gap, cursor =>
      let blanks := cursor.rest.takeWhile isBlank
      if gap.broken && (blanks.take (least - cursor.column)).contains '\t' then none
      else
        let cursor := cursor.skip blanks.length
        let gap := if gap.broken then gap else { gap with blanks }
        match cursor.readBreak with
        | (c :: _, next) => read least fuel (gap.addBreak c) next
        | ([], _) => some (gap, cursor)

end Gap

/-! ## Plain scalars -/

/-- The piece of a plain scalar up to white space or a mark that ends it.  In flow style a colon
right before another mark is refused. -/
def plainPiece (flow : Bool) : List Char → Option (List Char)
  | [] => some []
  | c :: rest =>
      if isSpacing c then some []
      else if flow && c = ':' && rest.head?.any fun next => isFlowMark next || next = '?' then none
      else if (c = ':' && endsWord rest) || (flow && isFlowMark c) then some []
      else (plainPiece flow rest).map (c :: ·)

/-- Read a plain scalar, and say whether it ended on a new line.  In block style it ends at a line
that is indented by less than `least`. -/
def readPlain (flow : Bool) (least : Nat) :
    (fuel : Nat) → (text : List Char) → Gap → Cursor → Option (List Char × Bool × Cursor)
  | 0, _, _, _ => none
  | fuel + 1, text, gap, cursor =>
      if cursor.atDocumentMark || cursor.rest.head? = some '#' then
        some (text, gap.broken, cursor)
      else do
        let piece ← plainPiece flow cursor.rest
        if piece.isEmpty then some (text, gap.broken, cursor)
        else
          let text := text ++ gap.join ++ piece
          let cursor := cursor.skip piece.length
          let (gap, cursor) ← Gap.read least (cursor.rest.length + 1) {} cursor
          if !flow && gap.broken && cursor.column < least then some (text, true, cursor)
          else readPlain flow least fuel text gap cursor

/-! ## Quoted scalars -/

/-- The piece of a text between single quotes up to white space or its end, where a doubled quote
is a quote, and what follows it. -/
def singlePiece : List Char → List Char × List Char
  | '\'' :: '\'' :: rest =>
      let (piece, after) := singlePiece rest
      ('\'' :: piece, after)
  | c :: rest =>
      if c = '\'' || isSpacing c then ([], c :: rest)
      else
        let (piece, after) := singlePiece rest
        (c :: piece, after)
  | [] => ([], [])

/-- The character that a letter names behind a backslash. -/
def escape? (c : Char) : Option Char :=
  match c with
  | '0' => some (Char.ofNat 0x00)
  | 'a' => some (Char.ofNat 0x07)
  | 'b' => some (Char.ofNat 0x08)
  | 't' => some '\t'
  | '\t' => some '\t'
  | 'n' => some '\n'
  | 'v' => some (Char.ofNat 0x0B)
  | 'f' => some (Char.ofNat 0x0C)
  | 'r' => some '\r'
  | 'e' => some (Char.ofNat 0x1B)
  | ' ' => some ' '
  | '"' => some '"'
  | '/' => some '/'
  | '\\' => some '\\'
  | 'N' => some (Char.ofNat 0x85)
  | '_' => some (Char.ofNat 0xA0)
  | 'L' => some (Char.ofNat 0x2028)
  | 'P' => some (Char.ofNat 0x2029)
  | _ => none

/-- The character with a code in hexadecimal digits. -/
def code? (digits : List Char) : Option Char :=
  (number? 16 digits).bind fun n => if n.isValidChar then some (Char.ofNat n) else none

/-- Put a character, if there is one, before a piece that was read. -/
def before (c? : Option Char) (read : Option (List Char × List Char)) :
    Option (List Char × List Char) := do
  let c ← c?
  let (piece, after) ← read
  some (c :: piece, after)

/-- The piece of a text between double quotes up to white space, its end, or a backslash at the
end of a line, and what follows it. -/
def doublePiece : List Char → Option (List Char × List Char)
  | [] => some ([], [])
  | '\\' :: 'x' :: a :: b :: rest => before (code? [a, b]) (doublePiece rest)
  | '\\' :: 'u' :: a :: b :: c :: d :: rest => before (code? [a, b, c, d]) (doublePiece rest)
  | '\\' :: 'U' :: a :: b :: c :: d :: e :: f :: g :: h :: rest =>
      before (code? [a, b, c, d, e, f, g, h]) (doublePiece rest)
  | '\\' :: c :: rest =>
      if isBreak c then some ([], '\\' :: c :: rest) else before (escape? c) (doublePiece rest)
  | c :: rest =>
      if c = '"' || isSpacing c then some ([], c :: rest)
      else before (some c) (doublePiece rest)

/-- Read a quoted scalar from behind its first quote.  A backslash at the end of a line takes the
line end away, with the blanks that start the next line. -/
def readQuoted (quote : Char) :
    (fuel : Nat) → (text : List Char) → Cursor → Option (List Char × Cursor)
  | 0, _, _ => none
  | fuel + 1, text, cursor =>
      if cursor.atDocumentMark then none
      else do
        let (piece, after) ←
          if quote = '"' then doublePiece cursor.rest else some (singlePiece cursor.rest)
        let text := text ++ piece
        let cursor := cursor.skip (cursor.rest.length - after.length)
        match after with
        | [] => none
        | c :: _ =>
            if c = quote then some (text, cursor.skip 1)
            else
              let (gap, cursor) ←
                if c = '\\' then
                  let next := (cursor.skip 1).readBreak.2
                  Gap.read 0 (next.rest.length + 1) { broken := true } next
                else Gap.read 0 (cursor.rest.length + 1) {} cursor
              readQuoted quote fuel (text ++ gap.join) cursor

/-! ## Blocks -/

/-- What becomes of the line ends at the end of a block. -/
inductive Chomping where
  | clip
  | strip
  | keep
  deriving DecidableEq

/-- The chomping that a mark asks for. -/
def chomping? (c : Char) : Option Chomping :=
  if c = '+' then some .keep else if c = '-' then some .strip else none

/-- The indentation that a digit asks for. -/
def indentation? (c : Char) : Option Nat :=
  digitValue? 10 c

/-- The chomping and the indentation in the first line of a block, in either order, and how many
characters they take; zero indentation stands for none given, and cannot be asked for. -/
def blockHeader (cs : List Char) : Option (Chomping × Nat × Nat) :=
  match cs.head?.bind chomping?, cs.head?.bind indentation? with
  | some chomping, _ =>
      match (cs.drop 1).head?.bind indentation? with
      | some 0 => none
      | some count => some (chomping, count, 2)
      | none => some (chomping, 0, 1)
  | none, some 0 => none
  | none, some count =>
      match (cs.drop 1).head?.bind chomping? with
      | some chomping => some (chomping, count, 2)
      | none => some (.clip, count, 1)
  | none, none => some (.clip, 0, 0)

/-- Go past indentation and empty lines.  Gives the widest indentation seen and the line ends.
While the indentation is not known, it is zero. -/
def blockGap (indent : Nat) :
    (fuel : Nat) → (widest : Nat) → (breaks : List Char) → Cursor →
      Option (Nat × List Char × Cursor)
  | 0, _, _, _ => none
  | fuel + 1, widest, breaks, cursor =>
      let spaces := (cursor.rest.takeWhile (· = ' ')).length
      let cursor := cursor.skip (if indent = 0 then spaces else min spaces (indent - cursor.column))
      let widest := max widest cursor.column
      if (indent = 0 || cursor.column < indent) && cursor.rest.head? = some '\t' then none
      else
        match cursor.readBreak with
        | (c :: _, next) => blockGap indent fuel widest (breaks ++ [c]) next
        | ([], _) => some (widest, breaks, cursor)

/-- What has been read of a block. -/
structure BlockText where
  /-- The text, up to the end of the last line that is not empty. -/
  text : List Char
  /-- The end of that line. -/
  ending : List Char
  /-- The line ends after it. -/
  breaks : List Char
  /-- Whether that line starts with a blank. -/
  indented : Bool

/-- Read the lines of a block that are indented by `indent`. -/
def blockLines (folded : Bool) (indent : Nat) :
    (fuel : Nat) → BlockText → Cursor → Option (BlockText × Cursor)
  | 0, _, _ => none
  | fuel + 1, block, cursor =>
      if cursor.column = indent && !cursor.rest.isEmpty then do
        let indented := cursor.rest.head?.any isBlank
        let joint :=
          if folded && block.ending == ['\n'] && !block.indented && !indented then
            if block.breaks.isEmpty then [' '] else []
          else block.ending
        let line := cursor.rest.takeWhile (!isBreak ·)
        let (ending, cursor) := (cursor.skip line.length).readBreak
        let (_, breaks, cursor) ← blockGap indent (cursor.rest.length + 1) 0 [] cursor
        let text := block.text ++ joint ++ block.breaks ++ line
        blockLines folded indent fuel ⟨text, ending, breaks, indented⟩ cursor
      else some (block, cursor)

/-- Read a block scalar from behind its mark, where the enclosing block is indented by `outer`;
an indentation that is not given is that of the first line. -/
def readBlock (folded : Bool) (outer : Int) (cursor : Cursor) : Option (List Char × Cursor) := do
  let (chomping, increment, width) ← blockHeader cursor.rest
  let cursor ← (cursor.skip width).finishLine
  let given := if increment = 0 then 0 else (max outer 0).toNat + increment
  let (widest, breaks, cursor) ← blockGap given (cursor.rest.length + 1) 0 [] cursor
  let indent := if given = 0 then max widest (max (outer + 1).toNat 1) else given
  let (block, cursor) ←
    blockLines folded indent (cursor.rest.length + 1) ⟨[], [], breaks, false⟩ cursor
  let ending := if chomping = .strip then [] else block.ending
  let breaks := if chomping = .keep then block.breaks else []
  some (block.text ++ ending ++ breaks, cursor)

end BranchWitness.Yaml
