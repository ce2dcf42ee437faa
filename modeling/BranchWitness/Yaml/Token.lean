/-!
# Tokens of a YAML text

The tokens are the marks and texts of a document.  Indentation appears as tokens too: a collection
in block style has a token where it opens and one where it closes, and every key of a mapping is
preceded by a token, also where the text has no mark for it.
-/

namespace BranchWitness.Yaml

/-- The text of a tag.  It may be written by its bytes; those that make up no character are kept
as `none`. -/
abbrev TagText := List (Option Char)

/-- The tag with the given characters. -/
def TagText.ofString (text : String) : TagText :=
  text.toList.map some

/-- A token. -/
inductive Token where
  | version (major minor : Nat)
  | tagHandle (handle : String) (expansion : TagText)
  | documentStart
  | documentEnd
  | blockSequence
  | blockMapping
  | blockEnd
  | flowSequence
  | flowSequenceEnd
  | flowMapping
  | flowMappingEnd
  | flowEntry
  | entry
  | key
  | value
  | reference (name : String)
  | anchor (name : String)
  | tag (handle : String) (suffix : TagText)
  | scalar (text : String) (plain : Bool)
  deriving DecidableEq

end BranchWitness.Yaml
