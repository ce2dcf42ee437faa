/-!
# Positions in a YAML text

The classes of characters that structure a document, and a cursor: the text still to be read with
the place it starts at.  Lines end at a carriage return, a line feed, both together, or one of the
three Unicode line ends.
-/

namespace BranchWitness.Yaml

/-! ## Characters -/

/-- Blanks within a line. -/
def isBlank (c : Char) : Bool :=
  c = ' ' || c = '\t'

/-- The line and paragraph separators, which a text keeps as they are. -/
def isSeparator (c : Char) : Bool :=
  c.toNat = 0x2028 || c.toNat = 0x2029

/-- Characters that end a line. -/
def isBreak (c : Char) : Bool :=
  c = '\r' || c = '\n' || c.toNat = 0x85 || isSeparator c

/-- White space of any kind. -/
def isSpacing (c : Char) : Bool :=
  isBlank c || isBreak c

/-- Whether white space or the end of the text comes next. -/
def endsWord (cs : List Char) : Bool :=
  cs.head?.all isSpacing

/-- Whether a line end or the end of the text comes next. -/
def endsLine (cs : List Char) : Bool :=
  cs.head?.all isBreak

/-- The characters of the names of anchors, directives and tag handles. -/
def isWordChar (c : Char) : Bool :=
  ('0' ≤ c && c ≤ '9') || ('A' ≤ c && c ≤ 'Z') || ('a' ≤ c && c ≤ 'z') || c = '_' || c = '-'

/-- The brackets and the comma, which structure collections in flow style. -/
def isFlowMark (c : Char) : Bool :=
  c = ',' || c = '[' || c = ']' || c = '\x7b' || c = '\x7d'

/-- The characters a document may hold. -/
def isPrintable (c : Char) : Bool :=
  let n := c.toNat
  n = 0x09 || n = 0x0A || n = 0x0D || (0x20 ≤ n && n ≤ 0x7E) || n = 0x85
    || (0xA0 ≤ n && n ≤ 0xD7FF) || (0xE000 ≤ n && n ≤ 0xFFFD) || 0x10000 ≤ n

/-! ## Cursors -/

/-- A place in a text, with the text that follows it. -/
structure Cursor where
  /-- What is still to be read. -/
  rest : List Char
  /-- The number of characters before. -/
  index : Nat
  /-- The number of lines before. -/
  line : Nat
  /-- The number of characters before on the same line. -/
  column : Nat

namespace Cursor

/-- The start of a text. -/
def start (text : List Char) : Cursor :=
  ⟨text, 0, 0, 0⟩

/-- Go past characters of the same line. -/
def skip (cursor : Cursor) (count : Nat) : Cursor :=
  { cursor with
    rest := cursor.rest.drop count
    index := cursor.index + count
    column := cursor.column + count }

/-- Go past the characters of a class that has no line ends. -/
def skipWhile (cursor : Cursor) (p : Char → Bool) : Cursor :=
  cursor.skip (cursor.rest.takeWhile p).length

/-- Go past a line end, and give what it stands for in a text: a line feed, or a separator itself.
Nothing happens when no line ends here. -/
def readBreak (cursor : Cursor) : List Char × Cursor :=
  match cursor.rest with
  | '\r' :: '\n' :: rest => (['\n'], ⟨rest, cursor.index + 2, cursor.line + 1, 0⟩)
  | c :: rest =>
      if isBreak c then
        ([if isSeparator c then c else '\n'], ⟨rest, cursor.index + 1, cursor.line + 1, 0⟩)
      else ([], cursor)
  | [] => ([], cursor)

/-- Go past a byte order mark that starts the line.  It takes up a column. -/
def skipOrderMark (cursor : Cursor) : Cursor :=
  if cursor.column = 0 && cursor.rest.head? = some (Char.ofNat 0xFEFF) then cursor.skip 1
  else cursor

/-- Go past a comment, up to the end of the line. -/
def skipComment (cursor : Cursor) : Cursor :=
  if cursor.rest.head? = some '#' then cursor.skipWhile (!isBreak ·) else cursor

/-- Go past the blanks, the comment and the end of a line that holds nothing else. -/
def finishLine (cursor : Cursor) : Option Cursor :=
  let cursor := (cursor.skipWhile isBlank).skipComment
  if endsLine cursor.rest then some cursor.readBreak.2 else none

/-- Whether three of the given character stand alone at the start of the line. -/
def atMark (cursor : Cursor) (c : Char) : Bool :=
  cursor.column = 0 && cursor.rest.take 3 == [c, c, c] && endsWord (cursor.rest.drop 3)

/-- Whether the line marks the start or the end of a document. -/
def atDocumentMark (cursor : Cursor) : Bool :=
  cursor.atMark '-' || cursor.atMark '.'

end Cursor

end BranchWitness.Yaml
