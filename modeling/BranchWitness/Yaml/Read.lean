import BranchWitness.Yaml.Event
import BranchWitness.Yaml.Token.Scan

/-!
# Reading YAML

A document is read in three stages: its text into tokens, these into events, and these into a
value.  References are followed at the last stage.  Collections nest to a depth of 128, and a
document may follow references a hundred times as often as it has events.

A tag that starts with an exclamation mark is the document's own, and the value is put behind it.
Any other tag says how a scalar is read, and nothing about a collection.  The keys of a mapping
with a tag of the document's own carry none: theirs do not count.
-/

namespace BranchWitness.Yaml

/-! ## Scalars -/

/-- The value of a scalar without a tag. -/
def ofBareScalar (text : String) (plain : Bool) : Option Yaml :=
  if plain then ofPlain? text.toList else some (str text)

/-- The value of a scalar with a tag that is not the document's own.  Some tags name a kind of
scalar; behind any other one it is a text. -/
def ofStandardTag (tag : TagText) (text : String) : Option Yaml :=
  let names (kind : String) : Bool := tag == .ofString ("tag:yaml.org,2002:" ++ kind)
  let cs := text.toList
  if names "bool" then (boolean? text).map bool
  else if names "int" then
    match readInt cs with
    | .integer n => some (int n)
    | _ => none
  else if names "float" then (float? cs).map float
  else if names "null" then if isNull text then some null else none
  else some (str text)

/-- Whether a tag is the document's own. -/
def TagText.isOwn (tag : TagText) : Bool :=
  tag.head? = some (some '!')

/-- Take off an exclamation mark that something follows. -/
def withoutMark : List Char → List Char
  | '!' :: c :: rest => c :: rest
  | cs => cs

/-- The name of a tag of the document's own, if the tag can be read.  Two exclamation marks do not
belong to it, unless it has nothing else. -/
def TagText.ownName? (tag : TagText) : Option String :=
  if tag.isOwn then
    (tag.mapM id).map fun cs => String.ofList (withoutMark (withoutMark cs))
  else none

/-- The properties of a value on which tags do not count. -/
def Properties.untagged (properties : Properties) : Properties :=
  { properties with tag := none }

/-- The name of the document's own tag among the properties. -/
def Properties.ownName? (properties : Properties) : Option String :=
  properties.tag.bind TagText.ownName?

/-- Put a value behind the document's own tag, if it has one. -/
def withTag (properties : Properties) (value : Yaml) : Yaml :=
  match properties.ownName? with
  | none => value
  | some name => tagged name value

/-- The value of a scalar. -/
def ofScalar (properties : Properties) (text : String) (plain : Bool) : Option Yaml :=
  match properties.tag.filter fun tag => !tag.isOwn with
  | some tag => ofStandardTag tag text
  | none => (ofBareScalar text plain).map (withTag properties)

/-! ## References -/

/-- Number the anchors, and let each reference name its anchor by number.  An anchor has the number
of different names before it. -/
def numberReferences : (names : List (String × Nat)) → List (Event String) →
    Option (List (Event Nat × Option Nat))
  | _, [] => some []
  | names, event :: rest =>
      let anchored (properties : Properties) (event : Event Nat) :
          Option (List (Event Nat × Option Nat)) :=
        match properties.anchor with
        | none => (numberReferences names rest).map ((event, none) :: ·)
        | some name =>
            let number := names.length
            let others := names.filter (·.1 ≠ name)
            (numberReferences ((name, number) :: others) rest).map ((event, some number) :: ·)
      match event with
      | .reference name => do
          let number ← names.lookup name
          let rest ← numberReferences names rest
          some ((.reference number, none) :: rest)
      | .scalar properties text plain => anchored properties (.scalar properties text plain)
      | .sequence properties => anchored properties (.sequence properties)
      | .mapping properties => anchored properties (.mapping properties)
      | .close => (numberReferences names rest).map ((.close, none) :: ·)

/-- What each number refers to: the events from its anchor on.  Of several anchors with one number
the last counts. -/
def targets : List (Event Nat × Option Nat) → List (Nat × List (Event Nat))
  | [] => []
  | (event, number) :: rest =>
      let later := targets rest
      match number with
      | some number => later ++ [(number, event :: rest.map Prod.fst)]
      | none => later

/-! ## Values -/

/-- How many references have been followed, and the events still to be read. -/
structure Reading where
  /-- The number of references followed. -/
  followed : Nat
  /-- The events still to be read. -/
  events : List (Event Nat)

/-- What references lead to, and how many may be followed. -/
structure References where
  /-- The events from each anchor on. -/
  targets : List (Nat × List (Event Nat))
  /-- The greatest number of references to follow. -/
  limit : Nat

mutual

/-- Read a value with at most `depth` collections inside each other.  Where it must be `bare`, its
tag does not count. -/
def readNode (references : References) : (fuel : Nat) → (depth : Nat) → (bare : Bool) → Reading →
    Option (Yaml × Reading)
  | 0, _, _, _ => none
  | fuel + 1, depth, bare, reading =>
      let seen (properties : Properties) : Properties :=
        if bare then properties.untagged else properties
      match reading.events with
      | [] => none
      | .close :: _ => none
      | .reference number :: rest =>
          if reading.followed < references.limit then do
            let target ← references.targets.lookup number
            let (value, after) ←
              readNode references fuel depth false ⟨reading.followed + 1, target⟩
            some (value, { after with events := rest })
          else none
      | .scalar properties text plain :: rest =>
          (ofScalar (seen properties) text plain).map fun value =>
            (value, { reading with events := rest })
      | .sequence properties :: rest =>
          match depth with
          | 0 => none
          | depth + 1 => do
              let (items, reading) ←
                readNodes references fuel depth { reading with events := rest }
              some (withTag (seen properties) (seq items), reading)
      | .mapping properties :: rest =>
          match depth with
          | 0 => none
          | depth + 1 => do
              let bareKeys := bare || properties.ownName?.isSome
              let (entries, reading) ←
                readEntries references fuel depth bareKeys [] { reading with events := rest }
              some (withTag (seen properties) (map entries), reading)

/-- Read the items of a sequence. -/
def readNodes (references : References) : (fuel : Nat) → (depth : Nat) → Reading →
    Option (List Yaml × Reading)
  | 0, _, _ => none
  | fuel + 1, depth, reading =>
      match reading.events with
      | .close :: rest => some ([], { reading with events := rest })
      | _ => do
          let (item, reading) ← readNode references fuel depth false reading
          let (items, reading) ← readNodes references fuel depth reading
          some (item :: items, reading)

/-- Read the entries of a mapping; no key may come twice. -/
def readEntries (references : References) : (fuel : Nat) → (depth : Nat) → (bareKeys : Bool) →
    (keys : List Yaml) → Reading → Option (List (Yaml × Yaml) × Reading)
  | 0, _, _, _, _ => none
  | fuel + 1, depth, bareKeys, keys, reading =>
      match reading.events with
      | .close :: rest => some ([], { reading with events := rest })
      | _ => do
          let (key, reading) ← readNode references fuel depth bareKeys reading
          if keys.any (same key) then none
          else do
            let (value, reading) ← readNode references fuel depth false reading
            let (entries, reading) ←
              readEntries references fuel depth bareKeys (key :: keys) reading
            some ((key, value) :: entries, reading)

end

/-- The greatest depth to which collections nest. -/
def maxNesting : Nat := 128

/-- The value of a document; nothing if it has no events. -/
def ofEvents (events : List (Event String)) : Option Yaml := do
  let numbered ← numberReferences [] events
  let references : References := ⟨targets numbered, 100 * events.length⟩
  if events.isEmpty then some null
  else do
    let fuel := (maxNesting + 2) * (events.length + 2)
    let (value, _) ← readNode references fuel maxNesting false ⟨0, numbered.map Prod.fst⟩
    some value

/-- Read a YAML document; `none` if the text is not one. -/
def parse (text : String) : Option Yaml := do
  let tokens ← Token.scan text.toList
  let events ← Event.ofTokens tokens
  ofEvents events

end BranchWitness.Yaml
