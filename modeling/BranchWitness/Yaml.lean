import BranchWitness.Text.Quoted

/-!
# YAML documents

The values of a YAML document.  A floating-point number is kept by the text that shows it, since
nothing is computed with it.  A value may carry a tag of the document's own.

`Yaml.same` is equality as keys of a mapping see it: the order of the entries of a mapping does
not count, and neither does the sign of a zero.
-/

namespace BranchWitness

/-- A YAML value. -/
inductive Yaml where
  | null
  | bool (b : Bool)
  | int (n : Int)
  | float (shown : String)
  | str (s : String)
  | seq (items : List Yaml)
  | map (entries : List (Yaml × Yaml))
  | tagged (tag : String) (value : Yaml)

namespace Yaml

/-- The value without its tags. -/
def untag : Yaml → Yaml
  | tagged _ value => untag value
  | value => value

/-! ## Equality -/

/-- Whether two floating-point numbers are equal, given the texts that show them. -/
def sameFloat (a b : String) : Bool :=
  let unsigned (shown : String) : String := if shown = "-0.0" then "0.0" else shown
  unsigned a = unsigned b

mutual

/-- Whether two values are equal as keys. -/
def same : Yaml → Yaml → Bool
  | null, null => true
  | bool a, bool b => a == b
  | int a, int b => a == b
  | float a, float b => sameFloat a b
  | str a, str b => a == b
  | seq as, seq bs => sameItems as bs
  | map as, map bs => as.length == bs.length && sameEntries as bs
  | tagged a x, tagged b y => a == b && same x y
  | _, _ => false

/-- Whether two lists are equal item by item. -/
def sameItems : List Yaml → List Yaml → Bool
  | [], [] => true
  | a :: as, b :: bs => same a b && sameItems as bs
  | _, _ => false

/-- Whether every entry of the first list is among those of the second. -/
def sameEntries : List (Yaml × Yaml) → List (Yaml × Yaml) → Bool
  | [], _ => true
  | (key, value) :: rest, others =>
      others.any (fun other => same key other.1 && same value other.2) && sameEntries rest others

end

/-! ## Messages -/

mutual

/-- How a value is shown in messages: its kind and then the value. -/
def describe : Yaml → String
  | null => "Null"
  | bool b => "Bool(" ++ (if b then "true" else "false") ++ ")"
  | int n => s!"Number({n})"
  | float shown => "Number(" ++ shown ++ ")"
  | str s => "String(" ++ Text.quoted s ++ ")"
  | seq items => "Sequence [" ++ String.intercalate ", " (describeItems items) ++ "]"
  | map entries =>
      "Mapping \x7b" ++ String.intercalate ", " (describeEntries entries) ++ "\x7d"
  | tagged tag value =>
      "TaggedValue \x7b tag: !" ++ tag ++ ", value: " ++ describe value ++ " \x7d"

/-- How the items of a sequence are shown. -/
def describeItems : List Yaml → List String
  | [] => []
  | item :: rest => describe item :: describeItems rest

/-- How the entries of a mapping are shown; a scalar key is shown without its kind. -/
def describeEntries : List (Yaml × Yaml) → List String
  | [] => []
  | (key, value) :: rest => (describeKey key ++ ": " ++ describe value) :: describeEntries rest

/-- How the key of an entry is shown. -/
def describeKey : Yaml → String
  | bool b => if b then "true" else "false"
  | int n => toString n
  | float shown => shown
  | str s => Text.quoted s
  | null => "Null"
  | seq items => "Sequence [" ++ String.intercalate ", " (describeItems items) ++ "]"
  | map entries =>
      "Mapping \x7b" ++ String.intercalate ", " (describeEntries entries) ++ "\x7d"
  | tagged tag value =>
      "TaggedValue \x7b tag: !" ++ tag ++ ", value: " ++ describe value ++ " \x7d"

end

end Yaml

end BranchWitness
