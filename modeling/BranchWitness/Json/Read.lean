import BranchWitness.Json

/-!
# Reading JSON documents

`Json.parse` accepts exactly the texts of the JSON grammar, with nothing before or after the
document but blanks.  The reader walks over the characters once; every call is handed one unit of
fuel less, and the text's length gives enough for the whole of it.
-/

namespace BranchWitness.Json

/-- Whether the character may stand between the parts of a document. -/
def isBlank (c : Char) : Bool :=
  c == ' ' || c == '\n' || c == '\r' || c == '\t'

/-- The characters from the first that is not blank. -/
def skipBlanks (cs : List Char) : List Char :=
  cs.dropWhile isBlank

mutual

/-- Read a document at the front of the characters, and give the rest after it. -/
def readValue : Nat → List Char → Option (Json × List Char)
  | 0, _ => none
  | fuel + 1, cs =>
      match skipBlanks cs with
      | 'n' :: 'u' :: 'l' :: 'l' :: rest => some (null, rest)
      | 't' :: 'r' :: 'u' :: 'e' :: rest => some (bool true, rest)
      | 'f' :: 'a' :: 'l' :: 's' :: 'e' :: rest => some (bool false, rest)
      | '"' :: rest =>
          match Quotation.scan rest with
          | some (body, rest) => some (string body, rest)
          | none => none
      | '[' :: rest =>
          match skipBlanks rest with
          | ']' :: rest => some (array [], rest)
          | rest =>
              match readItems fuel rest with
              | some (items, rest) => some (array items, rest)
              | none => none
      | '\x7b' :: rest =>
          match skipBlanks rest with
          | '\x7d' :: rest => some (object [], rest)
          | rest =>
              match readFields fuel rest with
              | some (fields, rest) => some (object fields, rest)
              | none => none
      | rest =>
          match Numeral.scan rest with
          | some (n, rest) => some (number n, rest)
          | none => none

/-- Read the items of an array, at least one, up to its closing bracket. -/
def readItems : Nat → List Char → Option (List Json × List Char)
  | 0, _ => none
  | fuel + 1, cs =>
      match readValue fuel cs with
      | none => none
      | some (item, rest) =>
          match skipBlanks rest with
          | ']' :: rest => some ([item], rest)
          | ',' :: rest =>
              match readItems fuel rest with
              | some (items, rest) => some (item :: items, rest)
              | none => none
          | _ => none

/-- Read the fields of an object, at least one, up to its closing brace. -/
def readFields : Nat → List Char → Option (List (Quotation × Json) × List Char)
  | 0, _ => none
  | fuel + 1, cs =>
      match skipBlanks cs with
      | '"' :: rest =>
          match Quotation.scan rest with
          | none => none
          | some (key, rest) =>
              match skipBlanks rest with
              | ':' :: rest =>
                  match readValue fuel rest with
                  | none => none
                  | some (value, rest) =>
                      match skipBlanks rest with
                      | '\x7d' :: rest => some ([(key, value)], rest)
                      | ',' :: rest =>
                          match readFields fuel rest with
                          | some (fields, rest) => some ((key, value) :: fields, rest)
                          | none => none
                      | _ => none
              | _ => none
      | _ => none

end

/-- The document that a text holds. -/
def parse (s : String) : Option Json :=
  let cs := s.toList
  match readValue (2 * cs.length + 2) cs with
  | some (json, rest) => if (skipBlanks rest).isEmpty then some json else none
  | none => none

end BranchWitness.Json
