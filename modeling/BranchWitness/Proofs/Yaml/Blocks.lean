import BranchWitness.Proofs.Yaml.Layout

/-!
# Reading texts in block style

The tokens of a document in block style are read into its events, and these into its mapping.  No
event has an anchor or is a reference, so numbering them changes nothing.  Together with the scan
of the text, `Document.parse_render` says that a document is read back as the mapping it
describes.
-/

namespace BranchWitness.Yaml

theorem length_le_length_flatMap {α β : Type} (f : α → List β) (h : ∀ a, 0 < (f a).length)
    (as : List α) : as.length ≤ (as.flatMap f).length := by
  induction as with
  | nil => exact Nat.le_refl _
  | cons a as ih =>
      have := h a
      rw [List.flatMap_cons, List.length_append, List.length_cons]
      omega

/-! ## Events -/

namespace Line

/-- The events of a line. -/
def events (Target : Type) (line : Line) : List (Event Target) :=
  [.scalar {} line.key.name true, .scalar {} line.leaf.text true]

end Line

namespace Member

/-- The events of a member. -/
def events (Target : Type) : Member → List (Event Target)
  | single line => line.events Target
  | block key lines _ _ =>
      .scalar {} key.name true :: .mapping {} :: lines.flatMap (Line.events Target) ++ [.close]

end Member

/-- The events of a document. -/
def Document.events (Target : Type) (document : Document) : List (Event Target) :=
  .mapping {} :: (document.members.flatMap (Member.events Target) ++ [.close])

namespace Event

variable {handles : Handles} {rest : List Token} {events : List (Event String)}

theorem readMember_scalar (text : String) (fuel : Nat) :
    readMember handles (fuel + 2) (.scalar text true :: rest) events =
      some (.scalar {} text true :: events, rest) := by
  simp [readMember, readValue, readProperties]

theorem readPairs_line (line : Line) (fuel : Nat) :
    readPairs handles (fuel + 3) (line.tokens ++ rest) events =
      readPairs handles (fuel + 2) rest ((line.events String).reverse ++ events) := by
  simp only [Line.tokens, Key.tokens, List.cons_append, List.nil_append]
  rw [readPairs, readMember_scalar]
  simp only [Option.bind_eq_bind, Option.bind_some, readMember_scalar]
  rfl

theorem readPairs_lines (lines : List Line) (fuel : Nat) :
    readPairs handles (fuel + lines.length + 2) (lines.flatMap Line.tokens ++ .blockEnd :: rest)
        events =
      some (.close :: (lines.flatMap (Line.events String)).reverse ++ events, rest) := by
  induction lines generalizing events with
  | nil => rfl
  | cons line lines ih =>
      rw [List.flatMap_cons, List.append_assoc, List.length_cons,
        show fuel + (lines.length + 1) + 2 = fuel + lines.length + 3 by omega, readPairs_line, ih]
      simp

theorem readMember_block (tokens : List Token) (fuel : Nat) :
    readMember handles (fuel + 2) (.blockMapping :: tokens) events =
      readPairs handles fuel tokens (.mapping {} :: events) := by
  simp [readMember, readValue, readProperties]

theorem readPairs_block (key : Key) (lines : List Line) (fuel : Nat) :
    readPairs handles (fuel + lines.length + 5)
        (key.tokens ++ .blockMapping :: (lines.flatMap Line.tokens ++ .blockEnd :: rest)) events =
      readPairs handles (fuel + lines.length + 4) rest
        (.close :: (lines.flatMap (Line.events String)).reverse ++
          .mapping {} :: .scalar {} key.name true :: events) := by
  simp only [Key.tokens, List.cons_append, List.nil_append]
  rw [readPairs, readMember_scalar]
  simp only [Option.bind_eq_bind, Option.bind_some, readMember_block, readPairs_lines,
    List.cons_append]

theorem readPairs_members (members : List Member) {fuel : Nat}
    (hfuel : (members.flatMap Member.tokens).length < fuel) :
    readPairs handles fuel (members.flatMap Member.tokens ++ .blockEnd :: rest) events =
      some (.close :: (members.flatMap (Member.events String)).reverse ++ events, rest) := by
  -- a member uses up one of the fuel and has more tokens than that; a block gets what is left of
  -- it, which its own tokens cover
  induction members generalizing fuel events with
  | nil =>
      obtain ⟨fuel, rfl⟩ := Nat.exists_eq_add_of_lt hfuel
      rfl
  | cons member members ih =>
      rw [List.flatMap_cons, List.length_append] at hfuel
      rw [List.flatMap_cons, List.append_assoc]
      cases member with
      | single line =>
          have hlength : (Member.single line).tokens.length = 4 := rfl
          obtain ⟨spare, rfl⟩ := Nat.exists_eq_add_of_le' (show 3 ≤ fuel by omega)
          rw [Member.tokens, readPairs_line, ih (by omega)]
          simp [Member.events]
      | block key lines ne_nil distinct =>
          have hlength : lines.length ≤ (lines.flatMap Line.tokens).length :=
            length_le_length_flatMap Line.tokens (fun _ => Nat.succ_pos _) lines
          have htokens : (Member.block key lines ne_nil distinct).tokens.length =
              (lines.flatMap Line.tokens).length + 5 := by
            simp [Member.tokens, Key.tokens]
          obtain ⟨spare, rfl⟩ := Nat.exists_eq_add_of_le' (show lines.length + 5 ≤ fuel by omega)
          have happend : (Member.block key lines ne_nil distinct).tokens ++
              (members.flatMap Member.tokens ++ .blockEnd :: rest) =
                key.tokens ++ .blockMapping :: (lines.flatMap Line.tokens ++
                  .blockEnd :: (members.flatMap Member.tokens ++ .blockEnd :: rest)) := by
            simp [Member.tokens]
          rw [happend, ← Nat.add_assoc, readPairs_block, ih (by omega)]
          simp [Member.events]

theorem ofTokens_document (document : Document) :
    ofTokens document.tokens = some (document.events String) := by
  have hvalue : ∀ fuel tokens, readValue standardHandles (fuel + 1) .block false
      (.blockMapping :: tokens) [] = readPairs standardHandles fuel tokens [.mapping {}] := by
    intro fuel tokens
    simp [readValue, readProperties]
  have hfuel : 4 * document.tokens.length + 4 = 4 * document.tokens.length + 3 + 1 := rfl
  have hlength : (document.members.flatMap Member.tokens).length <
      4 * document.tokens.length + 3 := by
    simp only [Document.tokens, List.length_cons, List.length_append, List.length_nil]
    omega
  unfold ofTokens
  rw [hfuel]
  simp only [Document.tokens, List.isEmpty_cons, Bool.false_eq_true, ite_false, startsDocument,
    hvalue]
  rw [← Document.tokens, readPairs_members _ hlength]
  simp [Document.events]

end Event

/-! ## Values -/

/-- Events without anchors and references stay as they are when these are numbered. -/
structure Unnamed (events : List (Event String)) (numbered : List (Event Nat)) : Prop where
  length_eq : numbered.length = events.length
  number : ∀ names rest, numberReferences names (events ++ rest) =
    (numberReferences names rest).map (numbered.map (·, none) ++ ·)

namespace Unnamed

theorem scalar (text : String) (plain : Bool) :
    Unnamed [.scalar {} text plain] [.scalar {} text plain] :=
  ⟨rfl, fun _ _ => rfl⟩

theorem mapping : Unnamed [.mapping {}] [.mapping {}] :=
  ⟨rfl, fun _ _ => rfl⟩

theorem close : Unnamed [.close] [.close] :=
  ⟨rfl, fun _ _ => rfl⟩

theorem append {first second : List (Event String)} {first' second' : List (Event Nat)}
    (h : Unnamed first first') (h' : Unnamed second second') :
    Unnamed (first ++ second) (first' ++ second') := by
  refine ⟨by simp [h.length_eq, h'.length_eq], fun names rest => ?_⟩
  rw [List.append_assoc, h.number, h'.number, Option.map_map]
  simp [Function.comp_def]

theorem flatMap {α : Type} {events : α → List (Event String)} {numbered : α → List (Event Nat)}
    (h : ∀ a, Unnamed (events a) (numbered a)) (as : List α) :
    Unnamed (as.flatMap events) (as.flatMap numbered) := by
  induction as with
  | nil => exact ⟨rfl, fun names rest => by simp⟩
  | cons a as ih =>
      rw [List.flatMap_cons, List.flatMap_cons]
      exact (h a).append ih

theorem line (line : Line) : Unnamed (line.events String) (line.events Nat) :=
  (scalar line.key.name true).append (scalar line.leaf.text true)

theorem member (member : Member) : Unnamed (member.events String) (member.events Nat) := by
  cases member with
  | single line => exact Unnamed.line line
  | block key lines ne_nil distinct =>
      exact ((scalar key.name true).append
        (mapping.append (flatMap Unnamed.line lines))).append close

theorem document (document : Document) :
    Unnamed (document.events String) (document.events Nat) :=
  mapping.append ((flatMap Unnamed.member document.members).append close)

end Unnamed

/-- The entry that a line describes. -/
def Line.entry (line : Line) : Yaml × Yaml :=
  (str line.key.name, line.leaf.value)

/-- The entry that a member describes. -/
def Member.entry : Member → Yaml × Yaml
  | single line => line.entry
  | block key lines _ _ => (str key.name, map (lines.map Line.entry))

section Values

variable {references : References} {depth followed : Nat} {keys : List Yaml}
  {rest : List (Event Nat)}

/-- The names are different from each other, and from the keys already read. -/
def Fresh (keys : List Yaml) (names : List String) : Prop :=
  names.Nodup ∧ ∀ name ∈ names, keys.any (same (str name)) = false

theorem fresh_nil {names : List String} (h : names.Nodup) : Fresh [] names :=
  ⟨h, fun _ _ => rfl⟩

theorem Fresh.head {name : String} {names : List String} (h : Fresh keys (name :: names)) :
    keys.any (same (str name)) = false :=
  h.2 name List.mem_cons_self

theorem Fresh.tail {name : String} {names : List String} (h : Fresh keys (name :: names)) :
    Fresh (str name :: keys) names := by
  obtain ⟨hnodup, hnew⟩ := h
  rw [List.nodup_cons] at hnodup
  refine ⟨hnodup.2, fun other hmem => ?_⟩
  have hne : other ≠ name := by
    rintro rfl
    exact hnodup.1 hmem
  simp [same, hne, hnew other (List.mem_cons_of_mem _ hmem)]

theorem readNode_scalar (text : String) (fuel : Nat) :
    readNode references (fuel + 1) depth false ⟨followed, .scalar {} text true :: rest⟩ =
      (ofPlain? text.toList).map fun value => (value, ⟨followed, rest⟩) := by
  have hscalar : ofScalar {} text true = ofPlain? text.toList := by
    change (ofPlain? text.toList).map id = ofPlain? text.toList
    rw [Option.map_id, id]
  rw [readNode, ← hscalar]
  rfl

theorem readNode_leaf (leaf : Leaf) (fuel : Nat) :
    readNode references (fuel + 1) depth false ⟨followed, .scalar {} leaf.text true :: rest⟩ =
      some (leaf.value, ⟨followed, rest⟩) := by
  rw [readNode_scalar, leaf.reads, Option.map_some]

theorem readNode_mapping {fuel : Nat} {entries : List (Yaml × Yaml)} {after : Reading}
    (h : readEntries references fuel depth false [] ⟨followed, rest⟩ = some (entries, after)) :
    readNode references (fuel + 1) (depth + 1) false ⟨followed, .mapping {} :: rest⟩ =
      some (map entries, after) := by
  have hkeys : (false || ({} : Properties).ownName?.isSome) = false := rfl
  rw [readNode]
  simp only [hkeys, h, Option.bind_eq_bind, Option.bind_some]
  rfl

/-- A key that is new, and its value. -/
theorem readEntries_cons {fuel : Nat} (key : Key) {value : Yaml} {after next : Reading}
    {entries : List (Yaml × Yaml)} (hnew : keys.any (same (str key.name)) = false)
    (hvalue : readNode references (fuel + 1) depth false ⟨followed, rest⟩ = some (value, after))
    (hentries : readEntries references (fuel + 1) depth false (str key.name :: keys) after =
      some (entries, next)) :
    readEntries references (fuel + 2) depth false keys
        ⟨followed, .scalar {} key.name true :: rest⟩ =
      some ((str key.name, value) :: entries, next) := by
  rw [readEntries]
  simp only [readNode_scalar, key.reads, Option.map_some, Option.bind_eq_bind, Option.bind_some,
    hnew, Bool.false_eq_true, ite_false, hvalue, hentries]

theorem readEntries_lines (lines : List Line)
    (hfresh : Fresh keys (lines.map fun line => line.key.name)) (fuel : Nat) :
    readEntries references (fuel + lines.length + 2) depth false keys
        ⟨followed, lines.flatMap (Line.events Nat) ++ .close :: rest⟩ =
      some (lines.map Line.entry, ⟨followed, rest⟩) := by
  induction lines generalizing keys with
  | nil => rfl
  | cons line lines ih =>
      exact readEntries_cons line.key hfresh.head (readNode_leaf line.leaf _) (ih hfresh.tail)

theorem readEntries_members (members : List Member)
    (hfresh : Fresh keys (members.map fun member => member.key.name)) {fuel : Nat}
    (hfuel : (members.flatMap (Member.events Nat)).length + 2 ≤ fuel) :
    readEntries references fuel (depth + 1) false keys
        ⟨followed, members.flatMap (Member.events Nat) ++ .close :: rest⟩ =
      some (members.map Member.entry, ⟨followed, rest⟩) := by
  induction members generalizing keys fuel with
  | nil =>
      obtain ⟨fuel, rfl⟩ := Nat.exists_eq_add_of_le' hfuel
      rfl
  | cons member members ih =>
      rw [List.flatMap_cons, List.length_append] at hfuel
      rw [List.flatMap_cons, List.append_assoc]
      cases member with
      | single line =>
          have hlength : ((Member.single line).events Nat).length = 2 := rfl
          obtain ⟨spare, rfl⟩ := Nat.exists_eq_add_of_le' (show 2 ≤ fuel by omega)
          exact readEntries_cons line.key hfresh.head (readNode_leaf line.leaf _)
            (ih hfresh.tail (by omega))
      | block key lines ne_nil distinct =>
          have hlength : lines.length ≤ (lines.flatMap (Line.events Nat)).length :=
            length_le_length_flatMap (Line.events Nat) (fun _ => Nat.succ_pos _) lines
          have hevents : ((Member.block key lines ne_nil distinct).events Nat).length =
              (lines.flatMap (Line.events Nat)).length + 3 := by
            simp [Member.events]
          obtain ⟨spare, rfl⟩ := Nat.exists_eq_add_of_le' (show lines.length + 4 ≤ fuel by omega)
          have happend : (Member.block key lines ne_nil distinct).events Nat ++
              (members.flatMap (Member.events Nat) ++ .close :: rest) =
                .scalar {} key.name true :: .mapping {} :: (lines.flatMap (Line.events Nat) ++
                  .close :: (members.flatMap (Member.events Nat) ++ .close :: rest)) := by
            simp [Member.events]
          rw [happend, show spare + (lines.length + 4) = spare + lines.length + 2 + 2 by omega]
          exact readEntries_cons key hfresh.head
            (readNode_mapping (readEntries_lines lines (fresh_nil distinct) spare))
            (ih hfresh.tail (by omega))

end Values

namespace Document

/-- The entries of the mapping that a document describes. -/
def entries (document : Document) : List (Yaml × Yaml) :=
  document.members.map Member.entry

theorem numberReferences_events (document : Document) :
    numberReferences [] (document.events String) =
      some ((document.events Nat).map (·, none)) := by
  have h := (Unnamed.document document).number [] []
  rwa [List.append_nil, numberReferences, Option.map_some, List.append_nil] at h

theorem ofEvents_events (document : Document) :
    ofEvents (document.events String) = some (map document.entries) := by
  have hread : ∀ references fuel, (document.events Nat).length ≤ fuel →
      readNode references (fuel + 1) maxNesting false ⟨0, document.events Nat⟩ =
        some (map document.entries, ⟨0, []⟩) := by
    intro references fuel hfuel
    have hlength : (document.members.flatMap (Member.events Nat)).length + 2 ≤ fuel := by
      rwa [events, List.length_cons, List.length_append] at hfuel
    exact readNode_mapping
      (readEntries_members document.members (fresh_nil document.distinct) hlength)
  have hfuel : (maxNesting + 2) * ((document.events String).length + 2) =
      130 * (document.events String).length + 259 + 1 := by
    simp only [maxNesting]
    omega
  unfold ofEvents
  rw [document.numberReferences_events]
  simp only [Option.bind_eq_bind, Option.bind_some, hfuel, List.map_map, Function.comp_def,
    List.map_id']
  rw [hread _ _ (by rw [(Unnamed.document document).length_eq]; omega)]
  rfl

/-- Reading the text of a document gives its mapping. -/
theorem parse_render (document : Document) :
    parse (String.ofList document.render) = some (map document.entries) := by
  unfold parse
  rw [String.toList_ofList, document.scan_render]
  simp only [Option.bind_eq_bind, Option.bind_some, Event.ofTokens_document,
    document.ofEvents_events]

end Document

end BranchWitness.Yaml
