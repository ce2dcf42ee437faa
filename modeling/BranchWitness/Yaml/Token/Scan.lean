import BranchWitness.Yaml.Token.Property
import BranchWitness.Yaml.Token.Text

/-!
# Cutting a text into tokens

The scanner walks through a text from left to right.  It keeps the indentations of the open blocks
and closes those that the next token is not indented enough for.

That a token starts a key shows only when its colon is met.  So the scanner remembers the last
token that can be a key, a *candidate*, for the block style and for every open bracket.  At the
colon the token for the key, and for the mapping if it starts here, is put before the candidate.
A candidate does not reach beyond its line, nor over more than 1024 characters; where a block can
only go on with a key, a candidate that comes to nothing is an error.
-/

namespace BranchWitness.Yaml

/-- A token that may turn out to start a key. -/
structure Candidate where
  /-- Whether nothing but a key can stand here. -/
  required : Bool
  /-- The number of tokens before it. -/
  place : Nat
  /-- Where it starts. -/
  index : Nat
  /-- The line it is on. -/
  line : Nat
  /-- The column it starts at. -/
  column : Nat

/-- The state of the scanner. -/
structure Scanner where
  /-- Where it is in the text. -/
  cursor : Cursor
  /-- The tokens so far, the latest first. -/
  tokens : List Token := []
  /-- The indentation of the innermost block; `-1` outside all blocks. -/
  indent : Int := -1
  /-- The indentations of the blocks around it, the innermost first. -/
  indents : List Int := []
  /-- The candidate within the innermost bracket, or outside all brackets. -/
  candidate : Option Candidate := none
  /-- The candidates around the open brackets, the innermost first. -/
  enclosing : List (Option Candidate) := []
  /-- Whether a key can start here. -/
  keyAllowed : Bool := true

namespace Scanner

/-- Whether a bracket is open. -/
def inFlow (scanner : Scanner) : Bool :=
  !scanner.enclosing.isEmpty

/-- Add a token. -/
def emit (scanner : Scanner) (token : Token) : Scanner :=
  { scanner with tokens := token :: scanner.tokens }

/-- Put a token before those that follow the first `place` tokens. -/
def emitAt (scanner : Scanner) (place : Nat) (token : Token) : Scanner :=
  let later := scanner.tokens.length - place
  { scanner with tokens := scanner.tokens.take later ++ token :: scanner.tokens.drop later }

/-- Add the token of a mark that takes up `width` characters. -/
def emitMark (scanner : Scanner) (width : Nat) (token : Token) : Scanner :=
  { scanner.emit token with cursor := scanner.cursor.skip width }

/-! ## Blocks -/

/-- Close the blocks that are indented by more than `column`. -/
def unroll (scanner : Scanner) (column : Int) : Scanner :=
  if scanner.inFlow then scanner else close scanner.indents scanner.indent scanner.tokens
where
  /-- Close the innermost block and those around it. -/
  close : List Int → Int → List Token → Scanner
    | [], indent, tokens => { scanner with indents := [], indent, tokens }
    | outer :: indents, indent, tokens =>
        if indent > column then close indents outer (.blockEnd :: tokens)
        else { scanner with indents := outer :: indents, indent, tokens }

/-- Open a block at `column`, unless one is open there. -/
def roll (scanner : Scanner) (column : Nat) (place : Nat) (token : Token) : Scanner :=
  if scanner.inFlow || scanner.indent ≥ column then scanner
  else
    { scanner.emitAt place token with
      indents := scanner.indent :: scanner.indents, indent := column }

/-- Open a block where the scanner is. -/
def rollHere (scanner : Scanner) (token : Token) : Scanner :=
  scanner.roll scanner.cursor.column scanner.tokens.length token

/-! ## Candidates -/

/-- Give up the candidate. -/
def dropCandidate (scanner : Scanner) : Option Scanner :=
  if scanner.candidate.any Candidate.required then none
  else some { scanner with candidate := none }

/-- Make what comes next the candidate, where a key can start. -/
def saveCandidate (scanner : Scanner) : Option Scanner :=
  if scanner.keyAllowed then do
    let cursor := scanner.cursor
    let required := !scanner.inFlow && scanner.indent = cursor.column
    let scanner ← scanner.dropCandidate
    some { scanner with
      candidate := some
        ⟨required, scanner.tokens.length, cursor.index, cursor.line, cursor.column⟩ }
  else some scanner

/-- Keep a candidate that the scanner has not gone too far from. -/
def refresh (cursor : Cursor) : Option Candidate → Option (Option Candidate)
  | none => some none
  | some candidate =>
      if candidate.line < cursor.line ∨ candidate.index + 1024 < cursor.index then
        if candidate.required then none else some none
      else some (some candidate)

/-- Give up the candidates that the scanner has gone too far from. -/
def dropStale (scanner : Scanner) : Option Scanner := do
  let candidate ← refresh scanner.cursor scanner.candidate
  let enclosing ← scanner.enclosing.mapM (refresh scanner.cursor)
  some { scanner with candidate, enclosing }

/-! ## White space -/

/-- Go past white space, comments and the byte order marks that start lines.  In block style a new
line may start with a key, and where a key can start there may be no tab. -/
def skipSpacing : (fuel : Nat) → Scanner → Scanner
  | 0, scanner => scanner
  | fuel + 1, scanner =>
      let tabs := scanner.inFlow || !scanner.keyAllowed
      let cursor := scanner.cursor.skipOrderMark
      let cursor := (cursor.skipWhile fun c => c = ' ' || (tabs && c = '\t')).skipComment
      match cursor.readBreak with
      | ([], _) => { scanner with cursor }
      | (_, next) =>
          skipSpacing fuel
            { scanner with cursor := next, keyAllowed := scanner.keyAllowed || !scanner.inFlow }

/-- Go to the next token, and leave what ends before it. -/
def approach (scanner : Scanner) : Option Scanner := do
  let scanner := skipSpacing (scanner.cursor.rest.length + 1) scanner
  let scanner ← scanner.dropStale
  some (scanner.unroll scanner.cursor.column)

/-! ## Tokens -/

/-- Leave all blocks, as a directive and the mark of a document do. -/
def leaveBlocks (scanner : Scanner) : Option Scanner := do
  let scanner ← (scanner.unroll (-1)).dropCandidate
  some { scanner with keyAllowed := false }

/-- The mark that starts or ends a document. -/
def documentMark (scanner : Scanner) (token : Token) : Option Scanner := do
  let scanner ← scanner.leaveBlocks
  some (scanner.emitMark 3 token)

/-- A directive. -/
def directive (scanner : Scanner) : Option Scanner := do
  let scanner ← scanner.leaveBlocks
  let (token, cursor) ← readDirective (scanner.cursor.skip 1)
  some { scanner.emit token with cursor }

/-- An opening bracket, which may start a key. -/
def openBracket (scanner : Scanner) (token : Token) : Option Scanner := do
  let scanner ← scanner.saveCandidate
  some { scanner.emitMark 1 token with
    enclosing := scanner.candidate :: scanner.enclosing, candidate := none, keyAllowed := true }

/-- A closing bracket. -/
def closeBracket (scanner : Scanner) (token : Token) : Option Scanner := do
  let scanner ← scanner.dropCandidate
  let scanner := { scanner.emitMark 1 token with keyAllowed := false }
  match scanner.enclosing with
  | candidate :: enclosing => some { scanner with candidate, enclosing }
  | [] => some scanner

/-- The comma between entries in flow style. -/
def comma (scanner : Scanner) : Option Scanner := do
  let scanner ← scanner.dropCandidate
  some { scanner.emitMark 1 .flowEntry with keyAllowed := true }

/-- The dash of an entry of a sequence. -/
def dash (scanner : Scanner) : Option Scanner :=
  if scanner.inFlow || scanner.keyAllowed then do
    let scanner ← (scanner.rollHere .blockSequence).dropCandidate
    some { scanner.emitMark 1 .entry with keyAllowed := true }
  else none

/-- The question mark of a key. -/
def question (scanner : Scanner) : Option Scanner :=
  if scanner.inFlow || scanner.keyAllowed then do
    let scanner ← (scanner.rollHere .blockMapping).dropCandidate
    some { scanner.emitMark 1 .key with keyAllowed := !scanner.inFlow }
  else none

/-- The colon before a value.  It makes the candidate a key; without one it belongs to a key behind
a question mark. -/
def colon (scanner : Scanner) : Option Scanner :=
  match scanner.candidate with
  | some candidate =>
      let scanner := scanner.emitAt candidate.place .key
      let scanner := scanner.roll candidate.column candidate.place .blockMapping
      some { scanner.emitMark 1 .value with candidate := none, keyAllowed := false }
  | none =>
      if scanner.inFlow || scanner.keyAllowed then
        let scanner := scanner.rollHere .blockMapping
        some { scanner.emitMark 1 .value with keyAllowed := !scanner.inFlow }
      else none

/-- A token that may start a key, read from behind a mark of `width` characters. -/
def keyToken (scanner : Scanner) (width : Nat) (read : Cursor → Option (Token × Cursor)) :
    Option Scanner := do
  let scanner ← scanner.saveCandidate
  let (token, cursor) ← read (scanner.cursor.skip width)
  some { scanner.emit token with cursor, keyAllowed := false }

/-- A block scalar, after which a new line starts. -/
def block (scanner : Scanner) (folded : Bool) : Option Scanner := do
  let scanner ← scanner.dropCandidate
  let (text, cursor) ← readBlock folded scanner.indent (scanner.cursor.skip 1)
  some { scanner.emit (.scalar (String.ofList text) false) with cursor, keyAllowed := true }

/-- A quoted scalar. -/
def quoted (scanner : Scanner) (quote : Char) : Option Scanner :=
  scanner.keyToken 1 fun cursor => do
    let (text, cursor) ← readQuoted quote (cursor.rest.length + 1) [] cursor
    some (.scalar (String.ofList text) false, cursor)

/-- A plain scalar.  If it ends on a new line, a key can start there. -/
def plain (scanner : Scanner) : Option Scanner := do
  let scanner ← scanner.saveCandidate
  let cursor := scanner.cursor
  let (text, newLine, cursor) ←
    readPlain scanner.inFlow (scanner.indent + 1).toNat (cursor.rest.length + 1) [] {} cursor
  some { scanner.emit (.scalar (String.ofList text) true) with cursor, keyAllowed := newLine }

/-- Whether a plain scalar can start with the first character: not with one of the marks, and with
a dash, a question mark or a colon only where these mark nothing. -/
def startsPlain (flow : Bool) (c : Char) (rest : List Char) : Bool :=
  if c = '-' then !rest.head?.any isBlank
  else if c = '?' || c = ':' then !flow && !endsWord rest
  else !isSpacing c && !isFlowMark c && !"#&*!|>'\"%@\x60".toList.contains c

/-- Read the token at the cursor, of which the first character is given. -/
def token (scanner : Scanner) (c : Char) (rest : List Char) : Option Scanner :=
  if scanner.cursor.column = 0 && c = '%' then scanner.directive
  else if scanner.cursor.atMark '-' then scanner.documentMark .documentStart
  else if scanner.cursor.atMark '.' then scanner.documentMark .documentEnd
  else if c = '[' then scanner.openBracket .flowSequence
  else if c = '\x7b' then scanner.openBracket .flowMapping
  else if c = ']' then scanner.closeBracket .flowSequenceEnd
  else if c = '\x7d' then scanner.closeBracket .flowMappingEnd
  else if c = ',' then scanner.comma
  else if c = '-' && endsWord rest then scanner.dash
  else if c = '?' && (scanner.inFlow || endsWord rest) then scanner.question
  else if c = ':' && (scanner.inFlow || endsWord rest) then scanner.colon
  else if c = '*' then
    scanner.keyToken 1 fun cursor => (readAnchor cursor).map fun (name, cursor) =>
      (.reference name, cursor)
  else if c = '&' then
    scanner.keyToken 1 fun cursor => (readAnchor cursor).map fun (name, cursor) =>
      (.anchor name, cursor)
  else if c = '!' then scanner.keyToken 0 (readTag scanner.inFlow)
  else if (c = '|' || c = '>') && !scanner.inFlow then scanner.block (c = '>')
  else if c = '\'' || c = '"' then scanner.quoted c
  else if startsPlain scanner.inFlow c rest then scanner.plain
  else none

/-- The tokens of the rest of the text, after those the scanner has. -/
def run : (fuel : Nat) → Scanner → Option (List Token)
  | 0, _ => none
  | fuel + 1, scanner => do
      let scanner ← scanner.approach
      match scanner.cursor.rest with
      | [] => do
          let scanner ← scanner.leaveBlocks
          some scanner.tokens.reverse
      | c :: rest => do
          let scanner ← scanner.token c rest
          run fuel scanner

end Scanner

/-- The tokens of a text.  A text with a character that a document may not hold is refused. -/
def Token.scan (text : List Char) : Option (List Token) :=
  if text.all isPrintable then
    Scanner.run (text.length + 1) { cursor := Cursor.start text }
  else none

end BranchWitness.Yaml
