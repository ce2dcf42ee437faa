import BranchWitness.Program.Json
import BranchWitness.Proofs.Arithmetic
import BranchWitness.Proofs.Json.Reading
import BranchWitness.Proofs.Lists
import BranchWitness.Proofs.Resolution

/-!
# Programs survive their documents

The document of a program is plain, and it is read as that program whenever it nests no deeper
than the reader allows (`parse_compact_toJson`).

* A record is written with its fields in the order in which they are asked for, so one lemma
  (`Fields.select?_named`) answers for all of them.
* The reader counts its depth down on the way into statements and expressions.  Each of them is an
  object of its own, so the nesting of the document bounds the depth that is needed
  (`Expr.read_toJson`, `Stmt.read_toJson`).
* Statements are checked to be strict before they are read, with the depth that the arrays and
  objects around them leave.  The writer nests them just as deep.
-/

namespace BranchWitness

open Json (Plain)

/-! ## Induction over programs -/

/-- Induction over statements, with the hypothesis for every statement inside. -/
theorem Stmt.inductionOn {motive : Stmt → Prop}
    (declaration : ∀ line target annotation value,
      motive (.declaration line target annotation value))
    (reassignment : ∀ line targets value, motive (.reassignment line targets value))
    (conditional : ∀ line test body orelse, (∀ s ∈ body, motive s) → (∀ s ∈ orelse, motive s) →
      motive (.conditional line test body orelse))
    (loop : ∀ line test body, (∀ s ∈ body, motive s) → motive (.loop line test body))
    (other : ∀ line label, motive (.other line label)) (s : Stmt) : motive s :=
  @Stmt.rec motive (fun stmts => ∀ s ∈ stmts, motive s) declaration reassignment conditional loop
    other (fun _ hmem => absurd hmem List.not_mem_nil)
    (fun _ _ hhead hrest _ hmem => (List.mem_cons.mp hmem).elim (fun h => h ▸ hhead) (hrest _)) s

@[simp] theorem Expr.toJsonAll_eq (es : List Expr) : toJsonAll es = es.map toJson := by
  induction es with
  | nil => rfl
  | cons e es ih => rw [toJsonAll, ih, List.map_cons]

@[simp] theorem Stmt.toJsonAll_eq (stmts : List Stmt) : toJsonAll stmts = stmts.map toJson := by
  induction stmts with
  | nil => rfl
  | cons s rest ih => rw [toJsonAll, ih, List.map_cons]

/-! ## Records and lists -/

namespace Fields

@[simp] theorem of?_record (fields : List (String × Json)) :
    of? (.record fields) = some (named fields) := by
  rw [Json.record, of?, mapM_map_eq_some id (by simp), List.map_id, Option.map_some]

theorem once?_cons_self {field : String × Json} {fields : List (String × Json)}
    (h : ∀ other ∈ fields, other.1 ≠ field.1) :
    once? (field :: fields) field.1 = some (some field.2) := by
  have hnone : fields.filter (fun other => other.1 == field.1) = [] := by
    simpa [List.filter_eq_nil_iff] using h
  simp [once?, hnone]

/-- The tag is taken off the other fields. -/
@[simp] theorem untag?_named {tag : Json} {fields : List (String × Json)}
    (h : ∀ field ∈ fields, field.1 ≠ "kind") :
    (named (("kind", tag) :: fields)).untag? = some (tag, named fields) := by
  have hfilter : fields.filter (fun field => field.1 != "kind") = fields := by
    simpa [List.filter_eq_self] using h
  rw [untag?, once?_cons_self h]
  simp [hfilter]

theorem once?_of_mem {fields : List (String × Json)} (hdistinct : (fields.map Prod.fst).Nodup)
    {field : String × Json} (hmem : field ∈ fields) :
    once? fields field.1 = some (some field.2) := by
  induction fields with
  | nil => exact absurd hmem List.not_mem_nil
  | cons first fields ih =>
      rw [List.map_cons, List.nodup_cons] at hdistinct
      obtain rfl | hmem := List.mem_cons.mp hmem
      · exact once?_cons_self fun other hother heq =>
          hdistinct.1 (heq ▸ List.mem_map_of_mem hother)
      · have hne : first.1 ≠ field.1 := fun heq =>
          hdistinct.1 (heq ▸ List.mem_map_of_mem hmem)
        rw [← ih hdistinct.2 hmem]
        simp [once?, hne]

/-- Fields asked for under their names, in their order, are all there. -/
@[simp] theorem select?_named {fields : List (String × Json)} {names : List String}
    (hnames : names = fields.map Prod.fst) (hdistinct : names.Nodup) :
    (named fields).select? names = some (fields.map fun field => some field.2) := by
  subst hnames
  exact mapM_map_eq_some _ fun field => once?_of_mem hdistinct

end Fields

@[simp] theorem Json.text?_text (s : String) : (text s).text? = some s := by
  simp [text, text?]

@[simp] theorem kindOf?_text (names : List String) (byNumber : Bool) (name : String) :
    kindOf? names byNumber (.text name) = names.findIdx? fun other => other == name := by
  simp [kindOf?, Json.text]

/-- A list is read back if its parts are. -/
theorem listOf_array {α : Type} {read : Json → Option α} {write : α → Json} {parts : List α}
    (h : ∀ part ∈ parts, read (write part) = some part) :
    listOf read (.array (parts.map write)) = some parts := by
  rw [listOf, Json.items?]
  dsimp only
  rw [mapM_map_eq_some id h, List.map_id]

@[simp] theorem listOf_texts (texts : List String) :
    listOf Json.text? (.array (texts.map .text)) = some texts :=
  listOf_array fun s _ => Json.text?_text s

/-- An optional part is read back if the part is and its document is not `null`. -/
theorem orNull_ofOption {α : Type} {read : Json → Option α} {write : α → Json} {part : Option α}
    (h : ∀ a ∈ part, read (write a) = some a ∧ write a ≠ .null) :
    orNull read (some (.ofOption write part)) = some part := by
  cases part with
  | none => rfl
  | some a =>
      obtain ⟨hread, hnull⟩ := h a rfl
      rw [Json.ofOption, orNull, hread, Option.map_some]
      exact hnull

/-! ## Literals and lines -/

@[simp] theorem Value.ofJson?_toJson (v : Value) : ofJson? v.toJson = some v := by
  cases v with
  | bool b => rfl
  | int n => simp [toJson, Json.int, ofJson?, checked_eq_some_iff]
  | str s => simp [toJson, Json.text, ofJson?]

theorem Value.plain_toJson (v : Value) : Plain v.toJson := by
  cases v with
  | bool b => exact .bool b
  | int n =>
      have hlow := n.minValue_le_toInt
      have hhigh := n.toInt_le
      have hsize : UInt64.size = 18446744073709551616 := rfl
      rw [Int64.toInt_minValue] at hlow
      rw [Int64.toInt_maxValue] at hhigh
      exact .int (by omega)
  | str s => exact .text s

@[simp] theorem Line.ofJson?_nat (line : Line) : ofJson? (.nat line.toNat) = some line := by
  have hint : (Json.nat line.toNat).int? = some (.ofNat line.toNat) := by
    simp [Json.nat, Json.int, Json.int?]
  rw [ofJson?, hint]
  simp [line.toNat_lt_size]

theorem plain_line (line : Line) : Plain (.nat line.toNat) := by
  have hline := line.toNat_lt_size
  have hsize : UInt32.size < UInt64.size := by decide
  exact .int (by rw [Int.natAbs_natCast]; omega)

/-! ## Plain parts and their depth -/

theorem plain_map {α : Type} {write : α → Json} {parts : List α}
    (h : ∀ part ∈ parts, Plain (write part)) : Plain (.array (parts.map write)) :=
  .array fun item hmem => by
    obtain ⟨part, hpart, rfl⟩ := List.mem_map.mp hmem
    exact h part hpart

theorem plain_ofOption {α : Type} {write : α → Json} (h : ∀ a, Plain (write a))
    (part : Option α) : Plain (.ofOption write part) := by
  cases part with
  | none => exact .null
  | some a => exact h a

theorem plain_texts (texts : List String) : Plain (.array (texts.map .text)) :=
  plain_map fun s _ => .text s

/-- What nests inside a record has one level less. -/
theorem exists_depth_of_record {fields : List (String × Json)} {depth : Nat}
    (h : (Json.record fields).nesting ≤ depth) :
    ∃ inner, depth = inner + 1 ∧ ∀ field ∈ fields, field.2.nesting ≤ inner := by
  obtain ⟨hpos, hfields⟩ := Json.nesting_record_le_iff.mp h
  exact ⟨depth - 1, by omega, hfields⟩

/-- Parts that are read back at every depth they fit in are read back as a list. -/
theorem listOf_array_of_nesting {α : Type} {read : Nat → Json → Option α} {write : α → Json}
    {parts : List α} {depth : Nat}
    (hread : ∀ part ∈ parts, ∀ depth, (write part).nesting ≤ depth →
      read depth (write part) = some part)
    (h : (Json.array (parts.map write)).nesting ≤ depth) :
    listOf (read depth) (.array (parts.map write)) = some parts := by
  obtain ⟨-, hparts⟩ := Json.nesting_array_le_iff.mp h
  refine listOf_array fun part hmem => hread part hmem depth ?_
  exact Nat.le_trans (hparts _ (List.mem_map_of_mem hmem)) (Nat.sub_le _ _)

/-! ## Expressions -/

namespace Expr

theorem plain_toJson (e : Expr) : Plain e.toJson := by
  induction e using Expr.inductionOn with
  | identifier name =>
      rw [toJson]
      exact .record (by simp [Plain.text])
  | literal value =>
      rw [toJson]
      exact .record (by simp [Plain.text, value.plain_toJson])
  | unary op operand ih =>
      rw [toJson]
      exact .record (by simp [Plain.text, ih])
  | connective op operands ih =>
      rw [toJson]
      exact .record (by simp [Plain.text, plain_map ih])
  | comparison left ops comparators ihl ihc =>
      rw [toJson]
      exact .record (by simp [Plain.text, ihl, plain_texts, plain_map ihc])
  | arithmetic op left right ihl ihr =>
      rw [toJson]
      exact .record (by simp [Plain.text, ihl, ihr])

theorem toJson_ne_null (e : Expr) : e.toJson ≠ .null := by
  cases e <;> simp [toJson, Json.record]

/-- An expression is read from its document at every depth that the document fits in. -/
theorem read_toJson (e : Expr) (inside : Bool) (depth : Nat) (h : e.toJson.nesting ≤ depth) :
    read depth inside e.toJson = some e := by
  induction e using Expr.inductionOn generalizing depth inside with
  | identifier name =>
      rw [toJson] at h ⊢
      obtain ⟨depth, rfl, -⟩ := exists_depth_of_record h
      simp [read, kinds, List.findIdx?_cons]
  | literal value =>
      rw [toJson] at h ⊢
      obtain ⟨depth, rfl, -⟩ := exists_depth_of_record h
      simp [read, kinds, List.findIdx?_cons]
  | unary op operand ih =>
      rw [toJson] at h ⊢
      obtain ⟨depth, rfl, hfields⟩ := exists_depth_of_record h
      have hoperand := ih true depth (hfields ("operand", _) (by simp))
      simp [read, kinds, List.findIdx?_cons, hoperand]
  | connective op operands ih =>
      rw [toJson, toJsonAll_eq] at h ⊢
      obtain ⟨depth, rfl, hfields⟩ := exists_depth_of_record h
      have hoperands := listOf_array_of_nesting (fun e hmem => ih e hmem true)
        (hfields ("operands", _) (by simp))
      simp [read, kinds, List.findIdx?_cons, hoperands]
  | comparison left ops comparators ihl ihc =>
      rw [toJson, toJsonAll_eq] at h ⊢
      obtain ⟨depth, rfl, hfields⟩ := exists_depth_of_record h
      have hleft := ihl true depth (hfields ("left", _) (by simp))
      have hcomparators := listOf_array_of_nesting (fun e hmem => ihc e hmem true)
        (hfields ("comparators", _) (by simp))
      simp [read, kinds, List.findIdx?_cons, hleft, hcomparators]
  | arithmetic op left right ihl ihr =>
      rw [toJson] at h ⊢
      obtain ⟨depth, rfl, hfields⟩ := exists_depth_of_record h
      have hleft := ihl true depth (hfields ("left", _) (by simp))
      have hright := ihr true depth (hfields ("right", _) (by simp))
      simp [read, kinds, List.findIdx?_cons, hleft, hright]

end Expr

/-! ## Statements -/

namespace Stmt

theorem plain_toJson (s : Stmt) : Plain s.toJson := by
  induction s using Stmt.inductionOn with
  | declaration line target annotation value =>
      rw [toJson]
      exact .record (by simp [Plain.text, plain_line, plain_ofOption Expr.plain_toJson value])
  | reassignment line targets value =>
      rw [toJson]
      exact .record (by simp [Plain.text, plain_line, plain_texts, value.plain_toJson])
  | conditional line test body orelse ihb iho =>
      rw [toJson]
      exact .record (by simp [Plain.text, plain_line, test.plain_toJson, plain_map ihb,
        plain_map iho])
  | loop line test body ih =>
      rw [toJson]
      exact .record (by simp [Plain.text, plain_line, test.plain_toJson, plain_map ih])
  | other line label =>
      rw [toJson]
      exact .record (by simp [Plain.text, plain_line, plain_ofOption Plain.text label])

/-- A statement is read from its document at every depth that the document fits in. -/
theorem read_toJson (s : Stmt) (inside : Bool) (depth : Nat) (h : s.toJson.nesting ≤ depth) :
    read depth inside s.toJson = some s := by
  induction s using Stmt.inductionOn generalizing depth inside with
  | declaration line target annotation value =>
      rw [toJson] at h ⊢
      obtain ⟨depth, rfl, hfields⟩ := exists_depth_of_record h
      have hvalue : orNull (Expr.read depth true) (some (.ofOption Expr.toJson value)) =
          some value := by
        refine orNull_ofOption fun e he => ⟨?_, e.toJson_ne_null⟩
        obtain rfl := Option.mem_def.mp he
        exact e.read_toJson true depth (hfields ("value", e.toJson) (by simp [Json.ofOption]))
      simp [read, kinds, List.findIdx?_cons, hvalue]
  | reassignment line targets value =>
      rw [toJson] at h ⊢
      obtain ⟨depth, rfl, hfields⟩ := exists_depth_of_record h
      have hvalue := value.read_toJson true depth (hfields ("value", _) (by simp))
      simp [read, kinds, List.findIdx?_cons, hvalue]
  | conditional line test body orelse ihb iho =>
      rw [toJson, toJsonAll_eq, toJsonAll_eq] at h ⊢
      obtain ⟨depth, rfl, hfields⟩ := exists_depth_of_record h
      have htest := test.read_toJson true depth (hfields ("test", _) (by simp))
      have hbody := listOf_array_of_nesting (fun s hmem => ihb s hmem true)
        (hfields ("body", _) (by simp))
      have horelse := listOf_array_of_nesting (fun s hmem => iho s hmem true)
        (hfields ("orelse", _) (by simp))
      simp [read, kinds, List.findIdx?_cons, orElseEmpty, htest, hbody, horelse]
  | loop line test body ih =>
      rw [toJson, toJsonAll_eq] at h ⊢
      obtain ⟨depth, rfl, hfields⟩ := exists_depth_of_record h
      have htest := test.read_toJson true depth (hfields ("test", _) (by simp))
      have hbody := listOf_array_of_nesting (fun s hmem => ih s hmem true)
        (hfields ("body", _) (by simp))
      simp [read, kinds, List.findIdx?_cons, orElseEmpty, htest, hbody]
  | other line label =>
      rw [toJson] at h ⊢
      obtain ⟨depth, rfl, hfields⟩ := exists_depth_of_record h
      have hlabel : orNull Json.text? (some (.ofOption .text label)) = some label :=
        orNull_ofOption fun s _ => ⟨Json.text?_text s, by simp [Json.text]⟩
      simp [read, kinds, List.findIdx?_cons, hlabel]

theorem ofJson?_toJson (s : Stmt) {depth : Nat} (h : s.toJson.nesting ≤ depth) :
    ofJson? depth s.toJson = some s := by
  rw [ofJson?, if_pos ((Json.isStrict_iff s.plain_toJson depth).mpr h), s.read_toJson false depth h]

end Stmt

/-! ## Functions and modules -/

@[simp] theorem Param.ofJson?_toJson (param : Param) : ofJson? param.toJson = some param := by
  simp [ofJson?, toJson]

theorem Param.plain_toJson (param : Param) : Plain param.toJson :=
  .record (by simp [Plain.text])

namespace Function

theorem plain_toJson (function : Function) : Plain function.toJson :=
  .record (by
    simp [Plain.text, plain_map fun (param : Param) (_ : param ∈ function.params) =>
      param.plain_toJson, plain_map fun (s : Stmt) (_ : s ∈ function.body) => s.plain_toJson])

/-- A function is read from its document at every depth that the document fits in. -/
theorem ofJson?_toJson (function : Function) {depth : Nat}
    (h : function.toJson.nesting ≤ depth) : ofJson? depth function.toJson = some function := by
  rw [toJson, Stmt.toJsonAll_eq] at h ⊢
  obtain ⟨inner, rfl, hfields⟩ := exists_depth_of_record h
  have hparams : listOf Param.ofJson? (.array (function.params.map Param.toJson)) =
      some function.params := listOf_array fun param _ => param.ofJson?_toJson
  obtain ⟨-, hstmts⟩ := Json.nesting_array_le_iff.mp
    (hfields ("body", .array (function.body.map Stmt.toJson)) (by simp))
  have hbody : listOf (Stmt.ofJson? (inner - 1)) (.array (function.body.map Stmt.toJson)) =
      some function.body :=
    listOf_array fun s hmem => s.ofJson?_toJson (hstmts _ (List.mem_map_of_mem hmem))
  simp [ofJson?, orElseEmpty, hparams, hbody]

end Function

namespace Module

theorem plain_toJson (module : Module) : Plain module.toJson :=
  .record (by
    simp [plain_map fun (function : Function) (_ : function ∈ module.functions) =>
      function.plain_toJson])

/-- A module is read from its document at every depth that the document fits in. -/
theorem ofJson?_toJson (module : Module) {depth : Nat}
    (h : module.toJson.nesting ≤ depth) : ofJson? depth module.toJson = some module := by
  rw [toJson] at h ⊢
  obtain ⟨inner, rfl, hfields⟩ := exists_depth_of_record h
  obtain ⟨-, hfunctions⟩ := Json.nesting_array_le_iff.mp
    (hfields ("functions", .array (module.functions.map Function.toJson)) (by simp))
  have hlist : listOf (Function.ofJson? (inner - 1))
      (.array (module.functions.map Function.toJson)) = some module.functions :=
    listOf_array fun function hmem =>
      function.ofJson?_toJson (hfunctions _ (List.mem_map_of_mem hmem))
  simp [ofJson?, orElseEmpty, hlist]

end Module

/-! ## Through the text -/

theorem parseWith_compact {α : Type} {read : Json → Option α} {json : Json} {part : α}
    (hplain : Plain json) (h : read json = some part) (what : String) :
    parseWith read what json.compact = .ok part := by
  rw [parseWith, Json.parse_compact hplain]
  dsimp only
  rw [h]

theorem Module.ofDocument?_toJson (module : Module) (h : module.toJson.nesting ≤ maxDepth) :
    ofDocument? module.toJson = some module := by
  rw [ofDocument?, if_pos ((Json.isStrict_iff module.plain_toJson maxDepth).mpr h),
    ← module.ofJson?_toJson h]
  simp [toJson]

theorem Module.ofDocument?_function (function : Function)
    (h : function.toJson.nesting ≤ maxDepth) :
    ofDocument? function.toJson = some ⟨[function]⟩ := by
  rw [ofDocument?, if_pos ((Json.isStrict_iff function.plain_toJson maxDepth).mpr h),
    function.ofJson?_toJson h]
  simp [Function.toJson]

/-- **Programs survive their documents.**  A module whose document nests at most `maxDepth` arrays
and objects is read back from the text of the document, as a module and as a module or function.
So is a function, which as a module or function stands for the module of that function alone. -/
theorem parse_compact_toJson :
    (∀ module : Module, module.toJson.nesting ≤ maxDepth →
      Module.parse module.toJson.compact = .ok module ∧
        Module.load module.toJson.compact = .ok module) ∧
      ∀ function : Function, function.toJson.nesting ≤ maxDepth →
        Function.parse function.toJson.compact = .ok function ∧
          Module.load function.toJson.compact = .ok ⟨[function]⟩ := by
  constructor
  · intro module h
    exact ⟨parseWith_compact module.plain_toJson (module.ofJson?_toJson h) _,
      parseWith_compact module.plain_toJson (module.ofDocument?_toJson h) _⟩
  · intro function h
    exact ⟨parseWith_compact function.plain_toJson (function.ofJson?_toJson h) _,
      parseWith_compact function.plain_toJson (Module.ofDocument?_function function h) _⟩

/-- A function with statements and expressions inside one another, a text that needs escapes, the
least integer and the last line. -/
def guardedReset : Function :=
  ⟨"reset \"x\"", [⟨"x", "int"⟩],
    [.loop 1 (.comparison (.identifier "x") ["<", "!="]
        [.literal (.int Int64.minValue), .arithmetic "+" (.identifier "x") (.literal (.int 1))])
      [.conditional 2 (.connective "and" [.identifier "\n\t\x01", .unary "not" (.identifier "é")])
        [.reassignment 3 ["x", "y"] (.literal (.str "\\u0041😀"))] [.other 4294967295 none]],
      .declaration 5 "z" "bool" (some (.literal (.bool true)))]⟩

/-- The function alone, and a module in which it stands twice. -/
theorem parse_compact_toJson_guardedReset :
    (Module.toJson ⟨[guardedReset, guardedReset]⟩).nesting ≤ maxDepth ∧
      guardedReset.toJson.nesting ≤ maxDepth ∧
      Module.load (Module.toJson ⟨[guardedReset, guardedReset]⟩).compact =
        .ok ⟨[guardedReset, guardedReset]⟩ ∧
      Module.load guardedReset.toJson.compact = .ok ⟨[guardedReset]⟩ := by
  have hmodule : (Module.toJson ⟨[guardedReset, guardedReset]⟩).nesting ≤ maxDepth := by
    decide
  have hfunction : guardedReset.toJson.nesting ≤ maxDepth := by
    decide
  exact ⟨hmodule, hfunction, (parse_compact_toJson.1 _ hmodule).2,
    (parse_compact_toJson.2 _ hfunction).2⟩

end BranchWitness
