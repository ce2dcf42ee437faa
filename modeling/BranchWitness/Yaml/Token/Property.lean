import BranchWitness.Yaml.Cursor
import BranchWitness.Yaml.Scalar
import BranchWitness.Yaml.Token

/-!
# Anchors, tags and directives

An anchor names a value so that a reference can repeat it.  A tag says what kind of value it
stands before: by a handle, which a directive may expand, and a suffix, or in full between angle
brackets.  A directive is a line before a document.
-/

namespace BranchWitness.Yaml

/-! ## Anchors -/

/-- Whether the name of an anchor can end here. -/
def endsAnchor (cs : List Char) : Bool :=
  endsWord cs || cs.head?.any fun c =>
    c = '?' || c = ':' || c = ',' || c = ']' || c = '\x7d' || c = '%' || c = '@' || c = '\x60'

/-- Read the name of an anchor or a reference from behind its mark. -/
def readAnchor (cursor : Cursor) : Option (String × Cursor) :=
  let name := cursor.rest.takeWhile isWordChar
  let after := cursor.skip name.length
  if name.isEmpty || !endsAnchor after.rest then none else some (String.ofList name, after)

/-! ## Tags -/

/-- The characters of a tag.  The flow marks belong to it only where it cannot be cut short. -/
def isTagChar (whole : Bool) (c : Char) : Bool :=
  isWordChar c || ";/?:@&=+$.%!~*'()".toList.contains c || (whole && ",[]".toList.contains c)

/-- The byte written behind a percent sign. -/
def percentByte? : List Char → Option (Nat × List Char)
  | '%' :: a :: b :: rest => (number? 16 [a, b]).map fun n => (n, rest)
  | _ => none

/-- The number of bytes of a character and the part of its code in the first of them. -/
def leadByte? (byte : Nat) : Option (Nat × Nat) :=
  if byte < 0x80 then some (0, byte)
  else if 0xC0 ≤ byte ∧ byte < 0xE0 then some (1, byte % 0x20)
  else if 0xE0 ≤ byte ∧ byte < 0xF0 then some (2, byte % 0x10)
  else if 0xF0 ≤ byte ∧ byte < 0xF8 then some (3, byte % 0x08)
  else none

/-- Read the bytes after the first one of a character. -/
def trailBytes? : (count : Nat) → (code : Nat) → List Char → Option (Nat × List Char)
  | 0, code, cs => some (code, cs)
  | count + 1, code, cs => do
      let (byte, rest) ← percentByte? cs
      if 0x80 ≤ byte ∧ byte < 0xC0 then trailBytes? count (code * 0x40 + byte % 0x40) rest
      else none

/-- The least code that takes the given number of bytes after the first one. -/
def leastCode (count : Nat) : Nat :=
  match count with
  | 0 => 0
  | 1 => 0x80
  | 2 => 0x800
  | _ => 0x10000

/-- Read what is written by its bytes: a character, unless they are too many for their code or no
character has it. -/
def percentChar? (cs : List Char) : Option (Option Char × List Char) := do
  let (byte, rest) ← percentByte? cs
  let (count, lead) ← leadByte? byte
  let (code, rest) ← trailBytes? count lead rest
  let readable := leastCode count ≤ code ∧ code.isValidChar
  some (if readable then some (Char.ofNat code) else none, rest)

/-- Read the characters of a tag, of which some may be written by their bytes. -/
def tagText (whole : Bool) : (fuel : Nat) → List Char → Option (TagText × List Char)
  | 0, _ => none
  | _ + 1, [] => some ([], [])
  | fuel + 1, c :: rest =>
      if c = '%' then do
        let (decoded, after) ← percentChar? (c :: rest)
        let (text, after) ← tagText whole fuel after
        some (decoded :: text, after)
      else if isTagChar whole c then
        (tagText whole fuel rest).map fun (text, after) => (some c :: text, after)
      else some ([], c :: rest)

/-- Read the characters of a tag at the cursor. -/
def readTagText (whole : Bool) (cursor : Cursor) : Option (TagText × Cursor) :=
  (tagText whole (cursor.rest.length + 1) cursor.rest).map fun (text, after) =>
    (text, cursor.skip (cursor.rest.length - after.length))

/-- The part of a tag that counts: a zero byte ends it. -/
def TagText.beforeZero (text : TagText) : TagText :=
  text.takeWhile (· ≠ some (Char.ofNat 0))

/-- The handle at the cursor: an exclamation mark, a word, and a second exclamation mark if there
is one. -/
def handleText (cs : List Char) : List Char :=
  match cs with
  | '!' :: rest =>
      let word := rest.takeWhile isWordChar
      if (rest.drop word.length).head? = some '!' then '!' :: word ++ ['!'] else '!' :: word
  | _ => []

/-- Whether a handle is closed by a second exclamation mark. -/
def isClosedHandle (handle : List Char) : Bool :=
  handle.length > 1 && handle.getLast? = some '!'

/-- The handle and the suffix of a tag.  A lone exclamation mark is a tag without a handle. -/
def readTagParts (cursor : Cursor) : Option (List Char × TagText × Cursor) :=
  if cursor.rest.take 2 == ['!', '<'] then do
    let (suffix, after) ← readTagText true (cursor.skip 2)
    if suffix.isEmpty || after.rest.head? ≠ some '>' then none
    else some ([], suffix.beforeZero, after.skip 1)
  else
    let handle := handleText cursor.rest
    if isClosedHandle handle then do
      let (suffix, after) ← readTagText false (cursor.skip handle.length)
      if suffix.isEmpty then none else some (handle, suffix.beforeZero, after)
    else do
      let (more, after) ← readTagText false (cursor.skip handle.length)
      let suffix := TagText.beforeZero ((handle.drop 1).map some ++ more)
      if suffix.isEmpty then some ([], [some '!'], after) else some (['!'], suffix, after)

/-- Read a tag.  White space follows it, or in flow style a comma. -/
def readTag (flow : Bool) (cursor : Cursor) : Option (Token × Cursor) := do
  let (handle, suffix, after) ← readTagParts cursor
  if endsWord after.rest || (flow && after.rest.head? = some ',') then
    some (.tag (String.ofList handle) suffix, after)
  else none

/-! ## Directives -/

/-- Read a number of at most nine digits. -/
def readShortNumber (cursor : Cursor) : Option (Nat × Cursor) :=
  let digits := cursor.rest.takeWhile fun c => (digitValue? 10 c).isSome
  if digits.length > 9 then none
  else (number? 10 digits).map fun n => (n, cursor.skip digits.length)

/-- Read the version a directive names. -/
def readVersion (cursor : Cursor) : Option (Token × Cursor) := do
  let (major, after) ← readShortNumber (cursor.skipWhile isBlank)
  if after.rest.head? = some '.' then
    let (minor, after) ← readShortNumber (after.skip 1)
    some (.version major minor, after)
  else none

/-- Read the handle a directive expands, and its expansion. -/
def readTagHandle (cursor : Cursor) : Option (Token × Cursor) := do
  let cursor := cursor.skipWhile isBlank
  let handle := handleText cursor.rest
  let cursor := cursor.skip handle.length
  if (handle == ['!'] || isClosedHandle handle) && cursor.rest.head?.any isBlank then
    let (expansion, after) ← readTagText true (cursor.skipWhile isBlank)
    if expansion.isEmpty || !endsWord after.rest then none
    else some (.tagHandle (String.ofList handle) expansion.beforeZero, after)
  else none

/-- Read the line of a directive from behind its mark. -/
def readDirective (cursor : Cursor) : Option (Token × Cursor) := do
  let name := cursor.rest.takeWhile isWordChar
  let cursor := cursor.skip name.length
  if !endsWord cursor.rest then none
  else do
    let (token, cursor) ←
      match String.ofList name with
      | "YAML" => readVersion cursor
      | "TAG" => readTagHandle cursor
      | _ => none
    let cursor ← cursor.finishLine
    some (token, cursor)

end BranchWitness.Yaml
