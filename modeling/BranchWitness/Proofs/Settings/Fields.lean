import BranchWitness.Proofs.Arithmetic
import BranchWitness.Proofs.Yaml.Keys
import BranchWitness.Settings.Yaml

/-!
# The fields of a settings file

What is said about single fields of a settings file, and about their failures.

* Why settings are not read (`SettingsError.IsMalformed`, `SettingsError.IsRange`), and that a
  failure is of the kind of which the failures of the single steps are (`FailsAs`).
* The entries of a mapping without two equal keys, looked up by name.
* The values that fields can have, described by what they are without their tags.
-/

namespace BranchWitness

/-! ## Kinds of failures -/

/-- The document does not have the form of settings. -/
def SettingsError.IsMalformed (e : SettingsError) : Prop :=
  ∃ detail, e = .malformed detail

/-- A number does not make sense. -/
def SettingsError.IsRange (e : SettingsError) : Prop :=
  ∃ field value least greatest hint, e = .range field value least greatest hint

/-- If there is no result, then because of a failure of the given kind. -/
def FailsAs {α : Type} (kind : SettingsError → Prop) (result : Except SettingsError α) : Prop :=
  ∀ e, result = .error e → kind e

namespace FailsAs

variable {α β σ : Type} {kind : SettingsError → Prop}

theorem ok (a : α) : FailsAs kind (.ok a) := by
  intro e h
  cases h

theorem error {e : SettingsError} (h : kind e) : FailsAs kind (.error e : Except _ α) := by
  intro e' h'
  cases h'
  exact h

theorem malformed (detail : String) :
    FailsAs SettingsError.IsMalformed (.error (.malformed detail) : Except _ α) :=
  error ⟨detail, rfl⟩

theorem ofField (key : String) (given : Option α) :
    FailsAs SettingsError.IsMalformed (SettingsError.ofField key given) := by
  cases given with
  | none => exact malformed _
  | some a => exact ok a

theorem bind {result : Except SettingsError α} {next : α → Except SettingsError β}
    (h : FailsAs kind result) (hnext : ∀ a, FailsAs kind (next a)) :
    FailsAs kind (result >>= next) := by
  cases result with
  | error e => exact error (h e rfl)
  | ok a => exact hnext a

theorem map {result : Except SettingsError α} (h : FailsAs kind result) (f : α → β) :
    FailsAs kind (result.map f) := by
  cases result with
  | error e => exact error (h e rfl)
  | ok a => exact ok _

theorem foldlM {step : σ → α → Except SettingsError σ} (h : ∀ s a, FailsAs kind (step s a))
    (as : List α) (s : σ) : FailsAs kind (as.foldlM step s) := by
  induction as generalizing s with
  | nil => exact ok s
  | cons a as ih =>
      rw [List.foldlM_cons]
      exact (h s a).bind ih

theorem exists_error {result : Except SettingsError α} (h : FailsAs kind result)
    (hne : ∀ a, result ≠ .ok a) : ∃ e, result = .error e ∧ kind e := by
  cases result with
  | error e => exact ⟨e, rfl, h e rfl⟩
  | ok a => exact absurd rfl (hne a)

end FailsAs

theorem SettingsError.ofField_eq_ok_iff {α : Type} {key : String} {given : Option α} {a : α} :
    ofField key given = .ok a ↔ given = some a := by
  cases given <;> simp [ofField]

theorem SettingsError.ofField_map_eq_ok_iff {α β : Type} {key : String} {given : Option α}
    {f : α → β} {b : β} : ofField key (given.map f) = .ok b ↔ ∃ a, given = some a ∧ f a = b := by
  rw [ofField_eq_ok_iff, Option.map_eq_some_iff]

theorem SettingsError.map_eq_ok_iff {α β : Type} {result : Except SettingsError α} {f : α → β}
    {b : β} : result.map f = .ok b ↔ ∃ a, result = .ok a ∧ f a = b := by
  cases result <;> simp [Except.map]

theorem SettingsError.exists_of_bind {α β : Type} {result : Except SettingsError α}
    {next : α → Except SettingsError β} {b : β} (h : result >>= next = .ok b) :
    ∃ a, result = .ok a ∧ next a = .ok b := by
  cases result with
  | error e => cases h
  | ok a => exact ⟨a, rfl, h⟩

/-! ## Looking up entries -/

namespace Yaml

variable {entries : List (Yaml × Yaml)} {key : String} {value : Yaml}

theorem isText_iff {text : String} : isText text value = true ↔ value = .str text := by
  cases value <;> simp [isText]

/-- Different keys of a mapping with the same name are the same entry. -/
theorem DistinctKeys.value_eq (h : DistinctKeys entries) {other : Yaml}
    (hvalue : (.str key, value) ∈ entries) (hother : (.str key, other) ∈ entries) :
    value = other := by
  have hself : same (.str key) (.str key) ≠ false := by simp [same]
  induction entries with
  | nil => cases hvalue
  | cons entry rest ih =>
      obtain ⟨hfirst, hrest⟩ := List.pairwise_cons.mp h
      rcases List.mem_cons.mp hvalue with rfl | hmem <;>
        rcases List.mem_cons.mp hother with heq | hmem'
      · exact (congrArg Prod.snd heq).symm
      · exact absurd (hfirst _ hmem') hself
      · subst heq
        exact absurd (hfirst _ hmem) hself
      · exact ih hrest hmem hmem'

theorem find?_eq_some (h : DistinctKeys entries) (hvalue : (.str key, value) ∈ entries) :
    find? key entries = some value := by
  unfold find?
  cases hfind : entries.find? fun entry => isText key entry.1 with
  | none =>
      rw [List.find?_eq_none] at hfind
      exact absurd (isText_iff.mpr rfl) (hfind _ hvalue)
  | some entry =>
      have hkey : entry.1 = .str key :=
        isText_iff.mp (by simpa using List.find?_some hfind)
      have hmem : (.str key, entry.2) ∈ entries := by
        rw [← hkey]
        exact List.mem_of_find?_eq_some hfind
      rw [Option.map_some, h.value_eq hvalue hmem]

theorem find?_eq_none (h : ∀ value, (.str key, value) ∉ entries) : find? key entries = none := by
  unfold find?
  rw [Option.map_eq_none_iff, List.find?_eq_none]
  intro entry hentry htext
  refine h entry.2 ?_
  rw [← isText_iff.mp htext]
  exact hentry

theorem mem_erase {entry : Yaml × Yaml} :
    entry ∈ erase key entries ↔ entry ∈ entries ∧ entry.1 ≠ .str key := by
  rw [erase, List.mem_filter, Bool.not_eq_true', ← Bool.not_eq_true, isText_iff]

theorem DistinctKeys.erase (h : DistinctKeys entries) (key : String) :
    DistinctKeys (erase key entries) :=
  List.Pairwise.filter _ h

/-! ## Values of fields -/

theorem toUInt64?_eq_some_iff {n : UInt64} :
    value.toUInt64? = some n ↔ value.untag = .int n.toNat := by
  unfold toUInt64?
  split
  · rename_i k hk
    rw [hk, Yaml.int.injEq]
    split
    · rename_i hrange
      have hsize : k.toNat < UInt64.size := by omega
      rw [Option.some_inj, ← UInt64.toNat_inj, UInt64.toNat_ofNat_of_lt' hsize]
      omega
    · rename_i hrange
      simp only [reduceCtorEq, false_iff]
      rintro rfl
      exact hrange ⟨Int.natCast_nonneg _, Int.ofNat_lt.mpr n.toNat_lt_size⟩
  · rename_i hnone
    simp only [reduceCtorEq, false_iff]
    exact fun h => hnone _ h

theorem toInt64?_eq_some_iff {n : Int64} :
    value.toInt64? = some n ↔ value.untag = .int n.toInt := by
  unfold toInt64?
  split
  · rename_i k hk
    rw [checked_eq_some_iff, hk, Yaml.int.injEq]
    exact eq_comm
  · rename_i hnone
    simp only [reduceCtorEq, false_iff]
    exact fun h => hnone _ h

theorem toBool?_eq_some_iff {b : Bool} : value.toBool? = some b ↔ value.untag = .bool b := by
  unfold toBool?
  split
  · rename_i c hc
    rw [hc, Option.some_inj, Yaml.bool.injEq]
  · rename_i hnone
    simp only [reduceCtorEq, false_iff]
    exact fun h => hnone _ h

end Yaml

theorem BackendKind.ofName?_eq_some_iff {name : String} {backend : BackendKind} :
    ofName? name = some backend ↔ name = backend.name := by
  unfold ofName?
  constructor
  · intro h
    split at h
    · cases h
      assumption
    · split at h
      · cases h
        assumption
      · cases h
  · rintro rfl
    cases backend <;> decide

theorem BackendKind.ofYaml?_eq_some_iff {value : Yaml} {backend : BackendKind} :
    ofYaml? value = some backend ↔ value = .str backend.name ∨
      ∃ inner, value = .tagged backend.name inner ∧ inner.untag = .null := by
  cases value with
  | str name => simp [ofYaml?, ofName?_eq_some_iff]
  | tagged tag inner =>
      have htagged : (∃ other, Yaml.tagged tag inner = .tagged backend.name other ∧
          other.untag = .null) ↔ tag = backend.name ∧ inner.untag = .null := by
        constructor
        · rintro ⟨other, heq, hnull⟩
          cases heq
          exact ⟨rfl, hnull⟩
        · rintro ⟨rfl, hnull⟩
          exact ⟨inner, rfl, hnull⟩
      rw [htagged, ofYaml?]
      split
      · rename_i hnull
        simp [ofName?_eq_some_iff, hnull]
      · rename_i hne
        simpa using fun _ h => hne h
  | _ => simp [ofYaml?]

end BranchWitness
