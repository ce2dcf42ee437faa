import BranchWitness.Error
import BranchWitness.Json.Read
import BranchWitness.Program

/-!
# Programs as JSON documents

A program is exchanged as a JSON document.  Each part is a *record*: an object with named fields
or an array with the fields in their order.  Statements and expressions are tagged records, the
tag being the field `kind` or the first item.  Fields that a record does not have are ignored; a
field that occurs twice is refused, and so is an item too many.

Two details make the format asymmetric.

* The tag of a statement or expression inside another one may be the number of its kind.
* Statements and expressions are strict documents in all their parts (`Json.isStrict`), while in
  modules, functions and parameters a field to be ignored may hold any JSON.

`maxDepth` bounds the nesting of arrays and objects of the whole document.
-/

namespace BranchWitness

/-- The greatest number of arrays and objects inside one another. -/
def maxDepth : Nat := 127

/-! ## Records -/

/-- The fields of a record, by name or by position. -/
inductive Fields where
  | named (fields : List (String × Json))
  | positional (items : List Json)

namespace Fields

/-- The record that a document holds. -/
def of? : Json → Option Fields
  | .object fields =>
      (fields.mapM fun field => (Quotation.text? field.1).map fun name => (name, field.2)).map named
  | .array items => some (positional items)
  | _ => none

/-- The value of a named field that occurs at most once. -/
def once? (fields : List (String × Json)) (key : String) : Option (Option Json) :=
  match fields.filter fun field => field.1 == key with
  | [] => some none
  | [field] => some (some field.2)
  | _ => none

/-- The fields with the given names, in their order, each present or not. -/
def select? (names : List String) : Fields → Option (List (Option Json))
  | named fields => names.mapM (once? fields)
  | positional items =>
      if items.length ≤ names.length then
        some ((items.map some) ++ List.replicate (names.length - items.length) none)
      else none

/-- The tag of a tagged record, and its other fields. -/
def untag? : Fields → Option (Json × Fields)
  | named fields =>
      match once? fields "kind" with
      | some (some tag) => some (tag, named (fields.filter fun field => field.1 != "kind"))
      | _ => none
  | positional (tag :: items) => some (tag, positional items)
  | positional [] => none

end Fields

/-- The position of a tag among the names of the kinds.  Where `byNumber` holds, the number of
the kind will do. -/
def kindOf? (names : List String) (byNumber : Bool) (tag : Json) : Option Nat :=
  match tag with
  | .string body =>
      match body.text? with
      | some name => names.findIdx? fun other => other == name
      | none => none
  | .number n =>
      match byNumber, n.integer? with
      | true, some (.ofNat index) => if index < names.length then some index else none
      | _, _ => none
  | _ => none

/-- A part that may be left out. -/
def orElseEmpty {α : Type} (read : Json → Option (List α)) : Option Json → Option (List α)
  | none => some []
  | some json => read json

/-- A part that may be left out or `null`. -/
def orNull {α : Type} (read : Json → Option α) : Option Json → Option (Option α)
  | none => some none
  | some .null => some none
  | some json => (read json).map some

/-- A list of parts. -/
def listOf {α : Type} (read : Json → Option α) (json : Json) : Option (List α) :=
  match json.items? with
  | some items => items.mapM read
  | none => none

/-- A line: an integer of 32 bits without sign. -/
def Line.ofJson? (json : Json) : Option Line :=
  match json.int? with
  | some (.ofNat n) => if n < UInt32.size then some (UInt32.ofNat n) else none
  | _ => none

/-- A literal: a truth value, a text or an integer of 64 bits. -/
def Value.ofJson? : Json → Option Value
  | .bool b => some (.bool b)
  | .number n =>
      match n.integer? with
      | some n => (checked n).map .int
      | none => none
  | .string body => body.text?.map .str
  | _ => none

/-! ## Expressions and statements -/

namespace Expr

/-- The kinds of expressions, in the order of their numbers. -/
def kinds : List String :=
  ["identifier", "literal", "unary", "connective", "comparison", "arithmetic"]

/-- Read an expression that nests at most `depth` expressions. -/
def read : Nat → (inside : Bool) → Json → Option Expr
  | 0, _, _ => none
  | depth + 1, inside, json => do
      let (tag, fields) ← (← Fields.of? json).untag?
      match ← kindOf? kinds inside tag with
      | 0 =>
          match ← fields.select? ["name"] with
          | [some name] => return identifier (← name.text?)
          | _ => none
      | 1 =>
          match ← fields.select? ["value"] with
          | [some value] => return literal (← Value.ofJson? value)
          | _ => none
      | 2 =>
          match ← fields.select? ["op", "operand"] with
          | [some op, some operand] => return unary (← op.text?) (← read depth true operand)
          | _ => none
      | 3 =>
          match ← fields.select? ["op", "operands"] with
          | [some op, some operands] =>
              return connective (← op.text?) (← listOf (read depth true) operands)
          | _ => none
      | 4 =>
          match ← fields.select? ["left", "ops", "comparators"] with
          | [some left, some ops, some comparators] =>
              return comparison (← read depth true left) (← listOf Json.text? ops)
                (← listOf (read depth true) comparators)
          | _ => none
      | _ =>
          match ← fields.select? ["op", "left", "right"] with
          | [some op, some left, some right] =>
              return arithmetic (← op.text?) (← read depth true left) (← read depth true right)
          | _ => none

end Expr

namespace Stmt

/-- The kinds of statements, in the order of their numbers. -/
def kinds : List String :=
  ["declaration", "reassignment", "conditional", "loop", "other"]

/-- Read a statement that nests at most `depth` statements and expressions. -/
def read : Nat → (inside : Bool) → Json → Option Stmt
  | 0, _, _ => none
  | depth + 1, inside, json => do
      let (tag, fields) ← (← Fields.of? json).untag?
      match ← kindOf? kinds inside tag with
      | 0 =>
          match ← fields.select? ["line", "target", "annotation", "value"] with
          | [some line, some target, some annotation, value] =>
              return declaration (← Line.ofJson? line) (← target.text?) (← annotation.text?)
                (← orNull (Expr.read depth true) value)
          | _ => none
      | 1 =>
          match ← fields.select? ["line", "targets", "value"] with
          | [some line, some targets, some value] =>
              return reassignment (← Line.ofJson? line) (← listOf Json.text? targets)
                (← Expr.read depth true value)
          | _ => none
      | 2 =>
          match ← fields.select? ["line", "test", "body", "orelse"] with
          | [some line, some test, body, orelse] =>
              return conditional (← Line.ofJson? line) (← Expr.read depth true test)
                (← orElseEmpty (listOf (read depth true)) body)
                (← orElseEmpty (listOf (read depth true)) orelse)
          | _ => none
      | 3 =>
          match ← fields.select? ["line", "test", "body"] with
          | [some line, some test, body] =>
              return loop (← Line.ofJson? line) (← Expr.read depth true test)
                (← orElseEmpty (listOf (read depth true)) body)
          | _ => none
      | _ =>
          match ← fields.select? ["line", "label"] with
          | [some line, label] =>
              return other (← Line.ofJson? line) (← orNull Json.text? label)
          | _ => none

end Stmt

/-- The expression of a document, a strict one that nests at most `depth` arrays and objects. -/
def Expr.ofJson? (depth : Nat) (json : Json) : Option Expr :=
  if json.isStrict depth then Expr.read depth false json else none

/-- The statement of a document, a strict one that nests at most `depth` arrays and objects. -/
def Stmt.ofJson? (depth : Nat) (json : Json) : Option Stmt :=
  if json.isStrict depth then Stmt.read depth false json else none

/-! ## Functions and modules -/

/-- The parameter of a document. -/
def Param.ofJson? (json : Json) : Option Param := do
  match ← (← Fields.of? json).select? ["name", "type"] with
  | [some name, some type] => return ⟨← name.text?, ← type.text?⟩
  | _ => none

/-- The function of a document that nests at most `depth` arrays and objects. -/
def Function.ofJson? (depth : Nat) (json : Json) : Option Function := do
  match ← (← Fields.of? json).select? ["name", "params", "body"] with
  | [some name, params, body] =>
      return ⟨← name.text?, ← orElseEmpty (listOf Param.ofJson?) params,
        ← orElseEmpty (listOf (Stmt.ofJson? (depth - 2))) body⟩
  | _ => none

/-- The module of a document that nests at most `depth` arrays and objects. -/
def Module.ofJson? (depth : Nat) (json : Json) : Option Module := do
  match ← (← Fields.of? json).select? ["functions"] with
  | [functions] => return ⟨← orElseEmpty (listOf (Function.ofJson? (depth - 2))) functions⟩
  | _ => none

/-! ## From texts -/

/-- Read a text as JSON, and the document as a part of a program. -/
def parseWith {α : Type} (read : Json → Option α) (what text : String) : Except Error α :=
  match Json.parse text with
  | none => .error (.parseFailure "the text is no JSON document")
  | some json =>
      match read json with
      | some part => .ok part
      | none => .error (.parseFailure ("the document is no " ++ what))

/-- The expression that a text holds. -/
def Expr.parse (text : String) : Except Error Expr :=
  parseWith (Expr.ofJson? maxDepth) "expression" text

/-- The statements that a text holds, as an array. -/
def Stmt.parseList (text : String) : Except Error (List Stmt) :=
  parseWith (listOf (Stmt.ofJson? (maxDepth - 1))) "list of statements" text

/-- The function that a text holds. -/
def Function.parse (text : String) : Except Error Function :=
  parseWith (Function.ofJson? maxDepth) "function" text

/-- The module that a text holds. -/
def Module.parse (text : String) : Except Error Module :=
  parseWith (Module.ofJson? maxDepth) "module" text

/-- The module of a document that may be a module or a single function: a module if it is an
object with a field `functions`.  The whole document is strict. -/
def Module.ofDocument? (json : Json) : Option Module :=
  if json.isStrict maxDepth then
    match Fields.of? json with
    | some (.named fields) =>
        if fields.any fun field => field.1 == "functions" then Module.ofJson? maxDepth json
        else (Function.ofJson? maxDepth json).map fun function => ⟨[function]⟩
    | _ => (Function.ofJson? maxDepth json).map fun function => ⟨[function]⟩
  else none

/-- The module that a text holds, which may be a module or a single function. -/
def Module.load (text : String) : Except Error Module :=
  parseWith Module.ofDocument? "module or function" text

/-! ## Writing -/

/-- The document of a value. -/
def Value.toJson : Value → Json
  | .bool b => .bool b
  | .int n => .int n.toInt
  | .str s => .text s

namespace Expr

mutual

/-- The document of an expression. -/
def toJson : Expr → Json
  | identifier name => .record [("kind", .text "identifier"), ("name", .text name)]
  | literal value => .record [("kind", .text "literal"), ("value", value.toJson)]
  | unary op operand =>
      .record [("kind", .text "unary"), ("op", .text op), ("operand", toJson operand)]
  | connective op operands =>
      .record [("kind", .text "connective"), ("op", .text op),
        ("operands", .array (toJsonAll operands))]
  | comparison left ops comparators =>
      .record [("kind", .text "comparison"), ("left", toJson left),
        ("ops", .array (ops.map .text)), ("comparators", .array (toJsonAll comparators))]
  | arithmetic op left right =>
      .record [("kind", .text "arithmetic"), ("op", .text op), ("left", toJson left),
        ("right", toJson right)]

/-- The documents of several expressions. -/
def toJsonAll : List Expr → List Json
  | [] => []
  | e :: es => toJson e :: toJsonAll es

end

end Expr

namespace Stmt

mutual

/-- The document of a statement. -/
def toJson : Stmt → Json
  | declaration line target annotation value =>
      .record [("kind", .text "declaration"), ("line", .nat line.toNat),
        ("target", .text target), ("annotation", .text annotation),
        ("value", .ofOption Expr.toJson value)]
  | reassignment line targets value =>
      .record [("kind", .text "reassignment"), ("line", .nat line.toNat),
        ("targets", .array (targets.map .text)), ("value", value.toJson)]
  | conditional line test body orelse =>
      .record [("kind", .text "conditional"), ("line", .nat line.toNat), ("test", test.toJson),
        ("body", .array (toJsonAll body)), ("orelse", .array (toJsonAll orelse))]
  | loop line test body =>
      .record [("kind", .text "loop"), ("line", .nat line.toNat), ("test", test.toJson),
        ("body", .array (toJsonAll body))]
  | other line label =>
      .record [("kind", .text "other"), ("line", .nat line.toNat),
        ("label", .ofOption .text label)]

/-- The documents of several statements. -/
def toJsonAll : List Stmt → List Json
  | [] => []
  | s :: rest => toJson s :: toJsonAll rest

end

end Stmt

/-- The document of a parameter. -/
def Param.toJson (param : Param) : Json :=
  .record [("name", .text param.name), ("type", .text param.type)]

/-- The document of a function. -/
def Function.toJson (function : Function) : Json :=
  .record [("name", .text function.name), ("params", .array (function.params.map Param.toJson)),
    ("body", .array (Stmt.toJsonAll function.body))]

/-- The document of a module. -/
def Module.toJson (module : Module) : Json :=
  .record [("functions", .array (module.functions.map Function.toJson))]

end BranchWitness
