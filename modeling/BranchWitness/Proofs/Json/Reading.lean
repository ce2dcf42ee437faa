import BranchWitness.Proofs.Json.Leaves

/-!
# Documents that are read back

`Json.Plain` describes the documents that are built from truth values, texts, integers of 64 bits,
arrays and records.  Reading gives back every plain document that was written without blanks
(`Json.parse_compact`): the reader never needs more than two units of fuel for a character, and it
stops in front of whatever may follow a value.

Whether a plain document is strict depends on its nesting alone (`Json.isStrict_iff`).
-/

namespace BranchWitness.Json

/-! ## Plain documents -/

/-- A document of truth values, texts, integers of 64 bits, arrays and records. -/
inductive Plain : Json → Prop where
  | null : Plain null
  | bool (b : Bool) : Plain (bool b)
  | int {n : Int} (hn : n.natAbs < UInt64.size) : Plain (int n)
  | text (s : String) : Plain (text s)
  | array {items : List Json} (hitems : ∀ item ∈ items, Plain item) : Plain (array items)
  | record {fields : List (String × Json)} (hfields : ∀ field ∈ fields, Plain field.2) :
      Plain (record fields)

theorem charsItems_cons_cons (item other : Json) (rest : List Json) :
    charsItems (item :: other :: rest) = item.chars ++ ',' :: charsItems (other :: rest) := by
  rw [charsItems]
  simp

theorem charsFields_cons_cons (field other : Quotation × Json) (rest : List (Quotation × Json)) :
    charsFields (field :: other :: rest) =
      '"' :: field.1 ++ '"' :: ':' :: field.2.chars ++ ',' :: charsFields (other :: rest) := by
  rw [charsFields]
  simp

/-- The characters of an integer start with a digit or a minus sign. -/
theorem exists_cons_chars_int (n : Int) :
    ∃ c cs, (int n).chars = c :: cs ∧ (c = '-' ∨ Numeral.isDigit c = true) := by
  rw [int, chars, Numeral.chars_ofInt]
  by_cases hnegative : n < 0
  · exact ⟨'-', _, by rw [if_pos hnegative, List.singleton_append], .inl rfl⟩
  · obtain ⟨d, ds, hdigits, hd⟩ := Numeral.exists_digit_cons n.natAbs
    exact ⟨d, ds, by rw [if_neg hnegative, hdigits, List.nil_append], .inr hd⟩

/-- A character that is neither a digit nor a minus sign does not start an integer. -/
theorem ne_of_start {c : Char} (hc : c = '-' ∨ Numeral.isDigit c = true) (other : Char)
    (hother : other ≠ '-' ∧ Numeral.isDigit other = false) : c ≠ other := by
  rintro rfl
  simp [hother] at hc

theorem isBlank_of_start {c : Char} (hc : c = '-' ∨ Numeral.isDigit c = true) :
    isBlank c = false := by
  have hne := ne_of_start hc
  simp [isBlank, hne ' ' (by decide), hne '\n' (by decide), hne '\r' (by decide),
    hne '\t' (by decide)]

theorem skipBlanks_cons {c : Char} (h : isBlank c = false) (cs : List Char) :
    skipBlanks (c :: cs) = c :: cs := by
  rw [skipBlanks, List.dropWhile_cons_of_neg (by simp [h])]

/-- A plain document starts neither with a blank nor with the end of an array. -/
theorem Plain.exists_cons_chars {json : Json} (h : Plain json) :
    ∃ c cs, json.chars = c :: cs ∧ isBlank c = false ∧ c ≠ ']' := by
  cases h with
  | null => exact ⟨_, _, rfl, by decide, by decide⟩
  | bool b => cases b <;> exact ⟨_, _, rfl, by decide, by decide⟩
  | @int n hn =>
      obtain ⟨c, cs, hchars, hc⟩ := exists_cons_chars_int n
      exact ⟨c, cs, hchars, isBlank_of_start hc, ne_of_start hc _ (by decide)⟩
  | text s => exact ⟨'"', _, by rw [Json.text, chars]; rfl, by decide, by decide⟩
  | array hitems => exact ⟨'[', _, by rw [chars]; rfl, by decide, by decide⟩
  | record hfields => exact ⟨'\x7b', _, by rw [Json.record, chars]; rfl, by decide, by decide⟩

theorem exists_cons_charsItems {item : Json} {c : Char} {cs : List Char}
    (h : item.chars = c :: cs) (items : List Json) :
    ∃ cs', charsItems (item :: items) = c :: cs' := by
  cases items with
  | nil => exact ⟨cs, by rw [charsItems, h]⟩
  | cons other items => exact ⟨_, by rw [charsItems_cons_cons, h, List.cons_append]⟩

theorem exists_cons_charsFields (field : Quotation × Json) (fields : List (Quotation × Json)) :
    ∃ cs, charsFields (field :: fields) = '"' :: cs := by
  cases fields with
  | nil => exact ⟨_, by rw [charsFields]; rfl⟩
  | cons other fields => exact ⟨_, by rw [charsFields_cons_cons]; rfl⟩

/-! ## Reading what was written -/

/-- A document is read back in front of everything that can follow it, with two units of fuel for
each character. -/
def ReadBack (json : Json) : Prop :=
  ∀ fuel rest, Ends rest → 2 * json.chars.length ≤ fuel →
    readValue fuel (json.chars ++ rest) = some (json, rest)

/-- No document is empty, so there is always fuel for the first look at it. -/
theorem readBack_of_succ {json : Json} (hchars : json.chars ≠ [])
    (h : ∀ fuel rest, Ends rest → 2 * json.chars.length ≤ fuel + 1 →
      readValue (fuel + 1) (json.chars ++ rest) = some (json, rest)) : ReadBack json := by
  intro fuel rest hends hfuel
  have hlength : 0 < json.chars.length := List.length_pos_iff.mpr hchars
  obtain ⟨fuel, rfl⟩ : ∃ k, fuel = k + 1 := ⟨fuel - 1, by omega⟩
  exact h fuel rest hends hfuel

theorem readBack_null : ReadBack null := by
  refine readBack_of_succ (by simp [chars]) fun fuel rest hends hfuel => ?_
  simp [chars, readValue, skipBlanks_cons, isBlank]

theorem readBack_bool (b : Bool) : ReadBack (bool b) := by
  refine readBack_of_succ (by cases b <;> simp [chars]) fun fuel rest hends hfuel => ?_
  cases b <;> simp [chars, readValue, skipBlanks_cons, isBlank]

theorem readBack_text (s : String) : ReadBack (text s) := by
  refine readBack_of_succ (by simp [text, chars]) fun fuel rest hends hfuel => ?_
  simp [text, chars, readValue, skipBlanks_cons, isBlank, Quotation.scan_ofText]

theorem readBack_int (n : Int) : ReadBack (int n) := by
  obtain ⟨c, cs, hchars, hc⟩ := exists_cons_chars_int n
  refine readBack_of_succ (by simp [hchars]) fun fuel rest hends hfuel => ?_
  have hscan : Numeral.scan (c :: cs ++ rest) = some (.ofInt n, rest) := by
    rw [← hchars]
    exact Numeral.scan_ofInt n hends
  have hne := ne_of_start hc
  rw [hchars, readValue, List.cons_append, skipBlanks_cons (isBlank_of_start hc)]
  split
  case h_7 => rw [← List.cons_append, hscan, int]
  -- in the other cases another document would start here
  all_goals
    rename_i heq
    exact absurd (List.cons.inj heq).1 (hne _ (by decide))

/-- Items that are read back one by one are read back together.  Each item takes one unit of fuel
more than its characters do, which the comma or bracket behind it brings. -/
theorem readItems_charsItems {items : List Json} (hne : items ≠ [])
    (hitems : ∀ item ∈ items, ReadBack item) (rest : List Char) {fuel : Nat}
    (hfuel : 2 * (charsItems items).length + 1 ≤ fuel) :
    readItems fuel (charsItems items ++ ']' :: rest) = some (items, rest) := by
  induction items generalizing fuel with
  | nil => exact absurd rfl hne
  | cons item items ih =>
      obtain ⟨fuel, rfl⟩ : ∃ k, fuel = k + 1 := ⟨fuel - 1, by omega⟩
      have hitem := hitems item List.mem_cons_self
      cases items with
      | nil =>
          have hread := hitem fuel (']' :: rest) (.inr ⟨_, _, rfl, by decide⟩)
            (by simp only [charsItems] at hfuel; omega)
          simp [charsItems, readItems, hread, skipBlanks_cons, isBlank]
      | cons other items =>
          rw [charsItems_cons_cons, List.length_append, List.length_cons] at hfuel
          have hread := hitem fuel (',' :: (charsItems (other :: items) ++ ']' :: rest))
            (.inr ⟨_, _, rfl, by decide⟩) (by omega)
          have hrest := ih (by simp) (fun item hmem => hitems item (List.mem_cons_of_mem _ hmem))
            (show _ ≤ fuel by omega)
          rw [charsItems_cons_cons, List.append_assoc, List.cons_append, readItems, hread]
          simp [hrest, skipBlanks_cons, isBlank]

/-- Fields with written names whose values are read back one by one are read back together. -/
theorem readFields_charsFields {fields : List (Quotation × Json)} (hne : fields ≠ [])
    (hfields : ∀ field ∈ fields, (∃ name, field.1 = .ofText name) ∧ ReadBack field.2)
    (rest : List Char) {fuel : Nat} (hfuel : 2 * (charsFields fields).length + 1 ≤ fuel) :
    readFields fuel (charsFields fields ++ '\x7d' :: rest) = some (fields, rest) := by
  induction fields generalizing fuel with
  | nil => exact absurd rfl hne
  | cons field fields ih =>
      obtain ⟨fuel, rfl⟩ : ∃ k, fuel = k + 1 := ⟨fuel - 1, by omega⟩
      obtain ⟨⟨name, hname⟩, hvalue⟩ := hfields field List.mem_cons_self
      obtain ⟨key, value⟩ := field
      dsimp only at hname hvalue
      subst hname
      cases fields with
      | nil =>
          have hread := hvalue fuel ('\x7d' :: rest) (.inr ⟨_, _, rfl, by decide⟩)
            (by simp [charsFields] at hfuel; omega)
          simp [charsFields, readFields, Quotation.scan_ofText, hread, skipBlanks_cons, isBlank]
      | cons other fields =>
          simp only [charsFields_cons_cons, List.length_append, List.length_cons] at hfuel
          have hread := hvalue fuel (',' :: (charsFields (other :: fields) ++ '\x7d' :: rest))
            (.inr ⟨_, _, rfl, by decide⟩) (by omega)
          have hrest := ih (by simp) (fun field hmem => hfields field (List.mem_cons_of_mem _ hmem))
            (show _ ≤ fuel by omega)
          simp [charsFields_cons_cons, readFields, Quotation.scan_ofText, hread, hrest,
            skipBlanks_cons, isBlank]

theorem readBack_array {items : List Json} (hplain : ∀ item ∈ items, Plain item)
    (hitems : ∀ item ∈ items, ReadBack item) : ReadBack (array items) := by
  refine readBack_of_succ (by simp [chars]) fun fuel rest hends hfuel => ?_
  rw [chars, List.length_append, List.length_cons, List.length_singleton] at hfuel
  cases items with
  | nil => simp [chars, charsItems, readValue, skipBlanks_cons, isBlank]
  | cons item items =>
      have hread := readItems_charsItems (by simp) hitems rest (show _ ≤ fuel by omega)
      -- the first item starts with a character that does not end the array
      obtain ⟨c, cs, hchars, hblank, hbracket⟩ :=
        (hplain item List.mem_cons_self).exists_cons_chars
      obtain ⟨cs', hstart⟩ := exists_cons_charsItems hchars items
      have hopen : isBlank '[' = false := by decide
      simp only [hstart, List.cons_append] at hread
      simp [chars, hstart, readValue, skipBlanks_cons, hopen, hblank, hbracket, hread]

theorem readBack_object {fields : List (Quotation × Json)}
    (hfields : ∀ field ∈ fields, (∃ name, field.1 = .ofText name) ∧ ReadBack field.2) :
    ReadBack (object fields) := by
  refine readBack_of_succ (by simp [chars]) fun fuel rest hends hfuel => ?_
  rw [chars, List.length_append, List.length_cons, List.length_singleton] at hfuel
  cases fields with
  | nil => simp [chars, charsFields, readValue, skipBlanks_cons, isBlank]
  | cons field fields =>
      have hread := readFields_charsFields (by simp) hfields rest (show _ ≤ fuel by omega)
      obtain ⟨cs, hstart⟩ := exists_cons_charsFields field fields
      simp only [hstart, List.cons_append] at hread
      simp [chars, hstart, readValue, skipBlanks_cons, isBlank, hread]

/-- A plain document is read back. -/
theorem Plain.readBack {json : Json} (h : Plain json) : ReadBack json := by
  induction h with
  | null => exact readBack_null
  | bool b => exact readBack_bool b
  | int hn => exact readBack_int _
  | text s => exact readBack_text s
  | array hplain ih => exact readBack_array hplain ih
  | record hplain ih =>
      refine readBack_object fun field hmem => ?_
      obtain ⟨field, hfield, rfl⟩ := List.mem_map.mp hmem
      exact ⟨⟨field.1, rfl⟩, ih field hfield⟩

/-- A plain document that is written without blanks is the document of its text. -/
theorem parse_compact {json : Json} (h : Plain json) : parse json.compact = some json := by
  have hread := h.readBack (2 * json.chars.length + 2) [] (.inl rfl) (by omega)
  rw [List.append_nil] at hread
  simp [parse, compact, String.toList_ofList, hread, skipBlanks]

/-! ## Nesting -/

mutual

/-- The greatest number of arrays and objects inside one another. -/
def nesting : Json → Nat
  | null => 0
  | bool _ => 0
  | number _ => 0
  | string _ => 0
  | array items => nestingItems items + 1
  | object fields => nestingFields fields + 1

/-- The nesting of the items of an array. -/
def nestingItems : List Json → Nat
  | [] => 0
  | item :: rest => max (nesting item) (nestingItems rest)

/-- The nesting of the fields of an object. -/
def nestingFields : List (Quotation × Json) → Nat
  | [] => 0
  | (_, value) :: rest => max (nesting value) (nestingFields rest)

end

@[simp] theorem nesting_array_le_iff {items : List Json} {depth : Nat} :
    (array items).nesting ≤ depth ↔ 1 ≤ depth ∧ ∀ item ∈ items, item.nesting ≤ depth - 1 := by
  have hitems : ∀ bound, nestingItems items ≤ bound ↔ ∀ item ∈ items, item.nesting ≤ bound := by
    intro bound
    induction items with
    | nil => simp [nestingItems]
    | cons item rest ih => rw [nestingItems, Nat.max_le, ih, List.forall_mem_cons]
  rw [nesting, ← hitems]
  omega

@[simp] theorem nesting_record_le_iff {fields : List (String × Json)} {depth : Nat} :
    (record fields).nesting ≤ depth ↔
      1 ≤ depth ∧ ∀ field ∈ fields, field.2.nesting ≤ depth - 1 := by
  have hfields : ∀ bound,
      nestingFields (fields.map fun field => (Quotation.ofText field.1, field.2)) ≤ bound ↔
        ∀ field ∈ fields, field.2.nesting ≤ bound := by
    intro bound
    induction fields with
    | nil => simp [nestingFields]
    | cons field rest ih =>
        rw [List.map_cons, nestingFields, Nat.max_le, ih, List.forall_mem_cons]
  rw [record, nesting, ← hfields]
  omega

theorem areStrict_iff {items : List Json} {depth : Nat} :
    areStrict depth items = true ↔ ∀ item ∈ items, item.isStrict depth = true := by
  induction items with
  | nil => simp [areStrict]
  | cons item rest ih => simp [areStrict, ih]

theorem areStrictFields_iff {fields : List (String × Json)} {depth : Nat} :
    areStrictFields depth (fields.map fun field => (Quotation.ofText field.1, field.2)) = true ↔
      ∀ field ∈ fields, field.2.isStrict depth = true := by
  induction fields with
  | nil => simp [areStrictFields]
  | cons field rest ih => simp [areStrictFields, ih]

/-- A plain document is strict up to a depth if and only if it does not nest deeper. -/
theorem isStrict_iff {json : Json} (h : Plain json) (depth : Nat) :
    json.isStrict depth = true ↔ json.nesting ≤ depth := by
  induction h generalizing depth with
  | null => simp [isStrict, nesting]
  | bool b => simp [isStrict, nesting]
  | int hn => simp [int, isStrict, nesting, Numeral.inDoubleRange_ofInt hn]
  | text s => simp [text, isStrict, nesting]
  | @array items hplain ih =>
      cases depth with
      | zero => simp [isStrict, nesting]
      | succ depth =>
          rw [isStrict, areStrict_iff, nesting_array_le_iff]
          simpa using forall₂_congr fun item hmem => ih item hmem depth
  | @record fields hplain ih =>
      cases depth with
      | zero => simp [record, isStrict, nesting]
      | succ depth =>
          rw [nesting_record_le_iff, record, isStrict, areStrictFields_iff]
          simpa using forall₂_congr fun field hmem => ih field hmem depth

end BranchWitness.Json
