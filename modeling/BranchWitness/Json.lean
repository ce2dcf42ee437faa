import BranchWitness.Json.Numeral
import BranchWitness.Json.Quotation

/-!
# JSON documents

A JSON document as a tree.  Strings and numbers keep their written form, and the fields of an
object keep their order and may repeat: what a document means, and which documents are refused,
is for the reader of a particular format to say.
-/

namespace BranchWitness

/-- A JSON document. -/
inductive Json where
  | null
  | bool (b : Bool)
  | number (n : Numeral)
  | string (body : Quotation)
  | array (items : List Json)
  | object (fields : List (Quotation × Json))

namespace Json

/-! ## Building -/

/-- A text. -/
def text (s : String) : Json :=
  string (.ofText s)

/-- An integer. -/
def int (n : Int) : Json :=
  number (.ofInt n)

/-- A natural number. -/
def nat (n : Nat) : Json :=
  int n

/-- An object with the given field names. -/
def record (fields : List (String × Json)) : Json :=
  object (fields.map fun field => (Quotation.ofText field.1, field.2))

/-- The document of an optional part, `null` if there is none. -/
def ofOption {α : Type} (toJson : α → Json) : Option α → Json
  | none => null
  | some a => toJson a

/-! ## Looking -/

/-- The text of a string. -/
def text? : Json → Option String
  | string body => body.text?
  | _ => none

/-- The items of an array. -/
def items? : Json → Option (List Json)
  | array items => some items
  | _ => none

/-- The integer of a number written as one. -/
def int? : Json → Option Int
  | number n => n.integer?
  | _ => none

/-! ## Writing without blanks -/

mutual

/-- The characters of a document, without blanks. -/
def chars : Json → List Char
  | null => ['n', 'u', 'l', 'l']
  | bool true => ['t', 'r', 'u', 'e']
  | bool false => ['f', 'a', 'l', 's', 'e']
  | number n => n.chars
  | string body => '"' :: body ++ ['"']
  | array items => '[' :: charsItems items ++ [']']
  | object fields => '\x7b' :: charsFields fields ++ ['\x7d']

/-- The items of an array, with commas between them. -/
def charsItems : List Json → List Char
  | [] => []
  | [item] => chars item
  | item :: rest => chars item ++ ',' :: charsItems rest

/-- The fields of an object, with commas between them. -/
def charsFields : List (Quotation × Json) → List Char
  | [] => []
  | [(key, value)] => '"' :: key ++ '"' :: ':' :: chars value
  | (key, value) :: rest => '"' :: key ++ '"' :: ':' :: chars value ++ ',' :: charsFields rest

end

/-- A document on one line, without blanks. -/
def compact (json : Json) : String :=
  String.ofList json.chars

/-! ## Writing for the eye -/

/-- The start of a line at a depth of nesting: two blanks for each level. -/
def indent (depth : Nat) : String :=
  String.ofList (List.replicate (2 * depth) ' ')

mutual

/-- A document with one item or field to a line; empty arrays and objects take no line. -/
def prettyAt (depth : Nat) : Json → String
  | array [] => "[]"
  | array items => "[\n" ++ prettyItems (depth + 1) items ++ "\n" ++ indent depth ++ "]"
  | object [] => "\x7b\x7d"
  | object fields =>
      "\x7b\n" ++ prettyFields (depth + 1) fields ++ "\n" ++ indent depth ++ "\x7d"
  | json => String.ofList json.chars

/-- The items of an array, each on its lines. -/
def prettyItems (depth : Nat) : List Json → String
  | [] => ""
  | [item] => indent depth ++ prettyAt depth item
  | item :: rest => indent depth ++ prettyAt depth item ++ ",\n" ++ prettyItems depth rest

/-- The fields of an object, each on its lines. -/
def prettyFields (depth : Nat) : List (Quotation × Json) → String
  | [] => ""
  | [(key, value)] =>
      indent depth ++ "\"" ++ String.ofList key ++ "\": " ++ prettyAt depth value
  | (key, value) :: rest =>
      indent depth ++ "\"" ++ String.ofList key ++ "\": " ++ prettyAt depth value ++ ",\n"
        ++ prettyFields depth rest

end

/-- A document laid out over lines, indented by two blanks for each level. -/
def pretty (json : Json) : String :=
  json.prettyAt 0

/-! ## Strict documents -/

mutual

/-- Whether a document nests at most `depth` arrays and objects, all its strings name texts and
all its numbers lie in the range of double-precision numbers. -/
def isStrict : Nat → Json → Bool
  | _, null => true
  | _, bool _ => true
  | _, number n => n.inDoubleRange
  | _, string body => body.text?.isSome
  | 0, array _ => false
  | 0, object _ => false
  | depth + 1, array items => areStrict depth items
  | depth + 1, object fields => areStrictFields depth fields

/-- Whether all items are strict. -/
def areStrict : Nat → List Json → Bool
  | _, [] => true
  | depth, item :: rest => isStrict depth item && areStrict depth rest

/-- Whether all field names name texts and all fields are strict. -/
def areStrictFields : Nat → List (Quotation × Json) → Bool
  | _, [] => true
  | depth, (key, value) :: rest =>
      key.text?.isSome && isStrict depth value && areStrictFields depth rest

end

end Json

end BranchWitness
