import BranchWitness.Yaml.Token

/-!
# Events of a YAML document

The events list the values of a document in the order of its text: each scalar and reference, and
for each collection its start, the events of its members, and its end.  A key of a mapping is
followed by its value; a value that is left out is an empty plain scalar.

`Event.ofTokens` reads them off the tokens of a text with at most one document.
-/

namespace BranchWitness.Yaml

/-- What stands before a value. -/
structure Properties where
  /-- The name that references to the value use. -/
  anchor : Option String := none
  /-- The tag in full. -/
  tag : Option TagText := none

/-- An event.  A reference says in some way to which anchor it refers. -/
inductive Event (Target : Type) where
  | reference (target : Target)
  | scalar (properties : Properties) (text : String) (plain : Bool)
  | sequence (properties : Properties)
  | mapping (properties : Properties)
  | close

/-- The expansions of tag handles. -/
abbrev Handles := List (String × TagText)

namespace Event

/-- The value that is left out. -/
def empty : Event String :=
  .scalar {} "" true

/-- Whether the next token closes a block or starts another of its members. -/
def leavesBlock (tokens : List Token) : Bool :=
  tokens.head?.any fun token =>
    token = .entry || token = .key || token = .value || token = .blockEnd

/-! ## Properties -/

/-- The tag that a handle and a suffix stand for. -/
def expandTag (handles : Handles) (handle : String) (suffix : TagText) : Option TagText :=
  if handle = "" then some suffix else (handles.lookup handle).map (· ++ suffix)

/-- Read the anchor and the tag before a value, in either order. -/
def readProperties (handles : Handles) : List Token → Option (Properties × List Token)
  | .anchor name :: .tag handle suffix :: rest =>
      (expandTag handles handle suffix).map fun tag => (⟨some name, some tag⟩, rest)
  | .tag handle suffix :: .anchor name :: rest =>
      (expandTag handles handle suffix).map fun tag => (⟨some name, some tag⟩, rest)
  | .anchor name :: rest => some (⟨some name, none⟩, rest)
  | .tag handle suffix :: rest =>
      (expandTag handles handle suffix).map fun tag => (⟨none, some tag⟩, rest)
  | tokens => some ({}, tokens)

/-! ## Values -/

/-- The style in which the members of a collection are written. -/
inductive Style where
  | block
  | flow
  deriving DecidableEq

mutual

/-- Read a value.  The events are given latest first, before those already there.  A sequence that
is not indented may be the value of a key. -/
def readValue (handles : Handles) : (fuel : Nat) → Style → (unindented : Bool) → List Token →
    List (Event String) → Option (List (Event String) × List Token)
  | 0, _, _, _, _ => none
  | _ + 1, _, _, .reference name :: rest, events => some (.reference name :: events, rest)
  | fuel + 1, style, unindented, tokens, events => do
      let (properties, rest) ← readProperties handles tokens
      match rest with
      | .entry :: _ =>
          if unindented then readUnindented handles fuel rest (.sequence properties :: events)
          else readAbsent properties rest events
      | .scalar text plain :: rest => some (.scalar properties text plain :: events, rest)
      | .flowSequence :: rest =>
          readFlowItems handles fuel true rest (.sequence properties :: events)
      | .flowMapping :: rest =>
          readFlowPairs handles fuel true rest (.mapping properties :: events)
      | .blockSequence :: after =>
          if style = .block then readItems handles fuel after (.sequence properties :: events)
          else readAbsent properties rest events
      | .blockMapping :: after =>
          if style = .block then readPairs handles fuel after (.mapping properties :: events)
          else readAbsent properties rest events
      | _ => readAbsent properties rest events

/-- A value of which there is nothing but an anchor or a tag. -/
def readAbsent (properties : Properties) (rest : List Token) (events : List (Event String)) :
    Option (List (Event String) × List Token) :=
  if properties.anchor.isSome || properties.tag.isSome then
    some (.scalar properties "" true :: events, rest)
  else none

/-- Read the items of a sequence in block style. -/
def readItems (handles : Handles) : (fuel : Nat) → List Token → List (Event String) →
    Option (List (Event String) × List Token)
  | 0, _, _ => none
  | fuel + 1, .entry :: rest, events =>
      if rest.head?.any fun token => token = .entry || token = .blockEnd then
        readItems handles fuel rest (empty :: events)
      else do
        let (events, rest) ← readValue handles fuel .block false rest events
        readItems handles fuel rest events
  | _ + 1, .blockEnd :: rest, events => some (.close :: events, rest)
  | _ + 1, _, _ => none

/-- Read the items of a sequence that is not indented; the block around it closes it. -/
def readUnindented (handles : Handles) : (fuel : Nat) → List Token → List (Event String) →
    Option (List (Event String) × List Token)
  | 0, _, _ => none
  | fuel + 1, .entry :: rest, events =>
      if leavesBlock rest then readUnindented handles fuel rest (empty :: events)
      else do
        let (events, rest) ← readValue handles fuel .block false rest events
        readUnindented handles fuel rest events
  | _ + 1, tokens, events => some (.close :: events, tokens)

/-- Read the key or the value of an entry in block style, which may be left out. -/
def readMember (handles : Handles) : (fuel : Nat) → List Token → List (Event String) →
    Option (List (Event String) × List Token)
  | 0, _, _ => none
  | fuel + 1, tokens, events =>
      if tokens.head?.any fun token => token = .key || token = .value || token = .blockEnd then
        some (empty :: events, tokens)
      else readValue handles fuel .block true tokens events

/-- Read the entries of a mapping in block style. -/
def readPairs (handles : Handles) : (fuel : Nat) → List Token → List (Event String) →
    Option (List (Event String) × List Token)
  | 0, _, _ => none
  | fuel + 1, .key :: rest, events => do
      let (events, rest) ← readMember handles fuel rest events
      match rest with
      | .value :: rest =>
          let (events, rest) ← readMember handles fuel rest events
          readPairs handles fuel rest events
      | rest => readPairs handles fuel rest (empty :: events)
  | _ + 1, .blockEnd :: rest, events => some (.close :: events, rest)
  | _ + 1, _, _ => none

/-- Read the value of a key in flow style, which may be left out before a comma or the bracket
`last`. -/
def readFlowMember (handles : Handles) : (fuel : Nat) → (last : Token) → List Token →
    List (Event String) → Option (List (Event String) × List Token)
  | 0, _, _, _ => none
  | fuel + 1, last, .value :: rest, events =>
      if rest.head?.any fun token => token = .flowEntry || token = last then
        some (empty :: events, rest)
      else readValue handles fuel .flow false rest events
  | _ + 1, _, tokens, events => some (empty :: events, tokens)

/-- Read the items of a sequence in flow style.  An item with a key is a mapping of one entry; its
key is left out at the cost of the token that would follow. -/
def readFlowItems (handles : Handles) : (fuel : Nat) → (first : Bool) → List Token →
    List (Event String) → Option (List (Event String) × List Token)
  | 0, _, _, _ => none
  | _ + 1, _, .flowSequenceEnd :: rest, events => some (.close :: events, rest)
  | fuel + 1, first, tokens, events => do
      let tokens ← afterComma first tokens
      match tokens with
      | .flowSequenceEnd :: rest => some (.close :: events, rest)
      | .key :: rest =>
          let events := .mapping {} :: events
          let absent := rest.head?.any fun token =>
            token = .value || token = .flowEntry || token = .flowSequenceEnd
          let (events, rest) ←
            if absent then some (empty :: events, rest.drop 1)
            else readValue handles fuel .flow false rest events
          let (events, rest) ← readFlowMember handles fuel .flowSequenceEnd rest events
          readFlowItems handles fuel false rest (.close :: events)
      | tokens =>
          let (events, rest) ← readValue handles fuel .flow false tokens events
          readFlowItems handles fuel false rest events

/-- Read the entries of a mapping in flow style.  A value without a colon is a key alone. -/
def readFlowPairs (handles : Handles) : (fuel : Nat) → (first : Bool) → List Token →
    List (Event String) → Option (List (Event String) × List Token)
  | 0, _, _, _ => none
  | _ + 1, _, .flowMappingEnd :: rest, events => some (.close :: events, rest)
  | fuel + 1, first, tokens, events => do
      let tokens ← afterComma first tokens
      match tokens with
      | .flowMappingEnd :: rest => some (.close :: events, rest)
      | .key :: rest =>
          let absent := rest.head?.any fun token =>
            token = .value || token = .flowEntry || token = .flowMappingEnd
          let (events, rest) ←
            if absent then some (empty :: events, rest)
            else readValue handles fuel .flow false rest events
          let (events, rest) ← readFlowMember handles fuel .flowMappingEnd rest events
          readFlowPairs handles fuel false rest events
      | tokens =>
          let (events, rest) ← readValue handles fuel .flow false tokens events
          readFlowPairs handles fuel false rest (empty :: events)

/-- Go past the comma that stands before every member but the first. -/
def afterComma (first : Bool) (tokens : List Token) : Option (List Token) :=
  match first, tokens with
  | true, tokens => some tokens
  | false, .flowEntry :: rest => some rest
  | false, _ => none

end

/-! ## Documents -/

/-- The handles that need no directive. -/
def standardHandles : Handles :=
  [("!", .ofString "!"), ("!!", .ofString "tag:yaml.org,2002:")]

/-- Read the directives of a document: one version at most, and each handle once. -/
def readDirectives : (versioned : Bool) → Handles → List Token → Option (Handles × List Token)
  | versioned, handles, .version major minor :: rest =>
      if !versioned && major = 1 && (minor = 1 || minor = 2) then
        readDirectives true handles rest
      else none
  | versioned, handles, .tagHandle handle expansion :: rest =>
      if (handles.lookup handle).isSome then none
      else readDirectives versioned ((handle, expansion) :: handles) rest
  | _, handles, tokens => some (handles, tokens)

/-- Whether a document has nothing in it. -/
def endsDocument : List Token → Bool
  | [] => true
  | .documentStart :: _ => true
  | .documentEnd :: _ => true
  | .version _ _ :: _ => true
  | .tagHandle _ _ :: _ => true
  | _ => false

/-- Whether a document starts with a directive or a mark. -/
def startsDocument : List Token → Bool
  | .documentStart :: _ => true
  | .version _ _ :: _ => true
  | .tagHandle _ _ :: _ => true
  | _ => false

/-- The events of a stream of tokens with at most one document; none if there is no document. -/
def ofTokens (tokens : List Token) : Option (List (Event String)) := do
  if tokens.isEmpty then some []
  else
    let fuel := 4 * tokens.length + 4
    let (events, rest) ←
      if startsDocument tokens then do
        let (handles, rest) ← readDirectives false [] tokens
        match rest with
        | .documentStart :: rest =>
            if endsDocument rest then some ([empty], rest)
            else readValue (handles ++ standardHandles) fuel .block false rest []
        | _ => none
      else readValue standardHandles fuel .block false tokens []
    if (rest.dropWhile (· = .documentEnd)).isEmpty then some events.reverse else none

end Event

end BranchWitness.Yaml
