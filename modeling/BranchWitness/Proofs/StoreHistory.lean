import BranchWitness.Proofs.Capacity
import BranchWitness.Proofs.Capture
import BranchWitness.Proofs.Filing
import Mathlib.Data.List.Induction

/-!
# What a store remembers of its history

A store is made with a limit and then changed by three operations, in any order: a name is bound, a
test is pushed, a variable is replaced in the tests.  What the store holds afterwards can be read
off the list of the operations alone (`Store.Recounts`), without running them:

* the names that were bound, each where it was bound first, with what it was bound to last;
* the tests that were pushed, as many as the limit allows, each with the replacements made after it.

Each operation keeps this description (`Store.Recounts.after`), and so it holds of the store after
every history (`Store.recounts_replay`).  The description of the tests needs no account of the
pushes that were refused: tests are never removed, so these are the pushes after the first ones.
-/

namespace BranchWitness

namespace Store

/-! ## Histories -/

/-- A change of a store. -/
inductive Operation where
  /-- Bind a name. -/
  | bind (name : String) (binding : Binding)
  /-- Push a test. -/
  | push (test : Term)
  /-- Replace a variable in the tests. -/
  | substitute (id : Nat) (replacement : Term)

namespace Operation

/-- The name that is bound, with its binding. -/
def bound? : Operation → Option (String × Binding)
  | bind name binding => some (name, binding)
  | _ => none

/-- The test that is pushed. -/
def pushed? : Operation → Option Term
  | push test => some test
  | _ => none

/-- What becomes of a test that was pushed before. -/
def rewrite : Operation → Term → Term
  | substitute id replacement => fun test => test.substitute id replacement
  | _ => id

/-- The bindings of a history, in order. -/
def bindings (history : List Operation) : List (String × Binding) :=
  history.filterMap bound?

/-- The tests of a history, in order, each with the replacements made after it. -/
def tests : List Operation → List Term
  | [] => []
  | operation :: later =>
      (operation.pushed?.map fun test =>
        later.foldl (fun test next => next.rewrite test) test).toList ++ tests later

theorem bindings_concat (history : List Operation) (operation : Operation) :
    bindings (history ++ [operation]) = bindings history ++ operation.bound?.toList := by
  rw [bindings, List.filterMap_append]
  cases operation <;> rfl

theorem tests_concat (history : List Operation) (operation : Operation) :
    tests (history ++ [operation]) =
      (tests history).map operation.rewrite ++ operation.pushed?.toList := by
  induction history with
  | nil => cases operation <;> rfl
  | cons first later ih =>
      rw [List.cons_append, tests, tests, ih, List.map_append, List.append_assoc]
      congr 1
      cases first.pushed? with
      | none => rfl
      | some test => simp [List.foldl_append]

end Operation

/-- The store after an operation.  A test that is refused leaves the store as it is. -/
def after (store : Store) : Operation → Store
  | .bind name binding => store.bind name binding
  | .push test =>
      match store.push test with
      | .ok (_, next) => next
      | .error _ => store
  | .substitute id replacement => store.substituteInTests id replacement

/-- The store that is made with a limit and goes through a history. -/
def replay (limit : Option Nat) (history : List Operation) : Store :=
  history.foldl after { capacity := limit }

/-- As many of the tests as the limit allows. -/
def upTo : Option Nat → List Term → List Term
  | some limit, tests => tests.take limit
  | none, tests => tests

/-! ## The steps of a history -/

variable {limit : Option Nat} {store : Store} {history : List Operation}

/-- What a store made with a limit holds after a history. -/
structure Recounts (limit : Option Nat) (history : List Operation) (store : Store) : Prop where
  /-- The limit is as it was. -/
  capacity : store.capacity = limit
  /-- No name stands twice. -/
  distinct : (store.named.map Prod.fst).Nodup
  /-- The names are those that were bound, in the order of their first bindings. -/
  names : store.named.map Prod.fst = ((Operation.bindings history).map Prod.fst).eraseDups
  /-- A name has the last of its bindings. -/
  last : ∀ name, store.binding? name = (Operation.bindings history).reverse.lookup name
  /-- The tests are those that were pushed within the limit, with the replacements made since. -/
  branch : store.branch = upTo limit (Operation.tests history)

/-- A name that is bound again keeps its place, and a new one comes last. -/
theorem names_putBinding (name : String) (binding : Binding) (named : List (String × Binding)) :
    (putBinding name binding named).map Prod.fst =
      if name ∈ named.map Prod.fst then named.map Prod.fst else named.map Prod.fst ++ [name] := by
  induction named with
  | nil => simp [putBinding]
  | cons entry rest ih =>
      by_cases hname : entry.1 = name
      · simp [putBinding, hname]
      · simp only [putBinding, hname, if_false, List.map_cons, ih, List.mem_cons, Ne.symm hname,
          false_or]
        split <;> rfl

theorem eraseDups_concat (names : List String) (name : String) :
    (names ++ [name]).eraseDups =
      if name ∈ names.eraseDups then names.eraseDups else names.eraseDups ++ [name] := by
  rw [List.eraseDups_append]
  by_cases hname : name ∈ names
  · simp [List.removeAll, hname]
  · simp [List.removeAll, hname, List.eraseDups_cons]

theorem upTo_map (f : Term → Term) (tests : List Term) :
    upTo limit (tests.map f) = (upTo limit tests).map f := by
  cases limit with
  | none => rfl
  | some limit => exact List.map_take.symm

/-- As long as there is room, no test has been left out. -/
theorem upTo_concat_of_room {tests : List Term}
    (h : ∀ most, limit = some most → (upTo limit tests).length < most) (test : Term) :
    upTo limit (tests ++ [test]) = upTo limit tests ++ [test] := by
  cases limit with
  | none => rfl
  | some most =>
      have hroom : min most tests.length < most := List.length_take ▸ h most rfl
      have hshort : tests.length < most := by omega
      rw [upTo, upTo, List.take_of_length_le (List.length_append ▸ hshort),
        List.take_of_length_le (Nat.le_of_lt hshort)]

/-- Once there is no room, every further test is left out. -/
theorem upTo_concat_of_full {most : Nat} {tests : List Term}
    (h : most ≤ (upTo (some most) tests).length) (test : Term) :
    upTo (some most) (tests ++ [test]) = upTo (some most) tests := by
  have hfull : most ≤ min most tests.length := List.length_take ▸ h
  exact List.take_append_of_le_length (by omega)

theorem after_push_of_hasRoom (h : store.hasRoom = true) (test : Term) :
    store.after (.push test) = store.take test := by
  rw [after, push_of_hasRoom h]

theorem after_push_of_not_hasRoom (h : store.hasRoom = false) (test : Term) :
    store.after (.push test) = store := by
  rw [after, push_of_not_hasRoom h]

namespace Recounts

theorem bind (h : Recounts limit history store) (name : String) (binding : Binding) :
    Recounts limit (history ++ [.bind name binding]) (store.after (.bind name binding)) where
  capacity := h.capacity
  distinct := nodup_putBinding h.distinct
  names := by
    rw [after, Store.bind, names_putBinding, h.names, Operation.bindings_concat, List.map_append]
    exact (eraseDups_concat _ name).symm
  last other := by
    rw [after, binding?_bind, h.last, Operation.bindings_concat, List.reverse_append]
    exact (lookup_cons_if other (name, binding) _).symm
  branch := by
    rw [after, Operation.tests_concat]
    simpa [Store.bind, Operation.rewrite, Operation.pushed?] using h.branch

/-- A push that is accepted adds the test that the history has at the end; one that is refused
leaves out a test that the limit cuts off. -/
theorem push (h : Recounts limit history store) (test : Term) :
    Recounts limit (history ++ [.push test]) (store.after (.push test)) := by
  have hbindings : Operation.bindings (history ++ [.push test]) = Operation.bindings history := by
    simp [Operation.bindings_concat, Operation.bound?]
  have htests : Operation.tests (history ++ [.push test]) = Operation.tests history ++ [test] := by
    simp [Operation.tests_concat, Operation.rewrite, Operation.pushed?]
  cases hroom : store.hasRoom with
  | true =>
      rw [after_push_of_hasRoom hroom]
      refine ⟨h.capacity, h.distinct, hbindings ▸ h.names, hbindings ▸ h.last, ?_⟩
      rw [hasRoom_iff, h.capacity, h.branch] at hroom
      rw [htests, upTo_concat_of_room hroom, ← h.branch, take]
  | false =>
      obtain ⟨most, hmost, hfull⟩ := hasRoom_eq_false_iff.mp hroom
      rw [after_push_of_not_hasRoom hroom]
      refine ⟨h.capacity, h.distinct, hbindings ▸ h.names, hbindings ▸ h.last, ?_⟩
      obtain rfl := h.capacity.symm.trans hmost
      rw [htests, upTo_concat_of_full (h.branch ▸ hfull), h.branch]

theorem substitute (h : Recounts limit history store) (id : Nat) (replacement : Term) :
    Recounts limit (history ++ [.substitute id replacement])
      (store.after (.substitute id replacement)) := by
  have hbindings : Operation.bindings (history ++ [.substitute id replacement]) =
      Operation.bindings history := by
    simp [Operation.bindings_concat, Operation.bound?]
  refine ⟨h.capacity, h.distinct, hbindings ▸ h.names, hbindings ▸ h.last, ?_⟩
  rw [Operation.tests_concat, after, branch_substituteInTests, h.branch]
  simp [Operation.rewrite, Operation.pushed?, upTo_map]

/-- Every operation keeps what a store holds in step with the history. -/
theorem after (h : Recounts limit history store) (operation : Operation) :
    Recounts limit (history ++ [operation]) (store.after operation) := by
  cases operation with
  | bind name binding => exact h.bind name binding
  | push test => exact h.push test
  | substitute id replacement => exact h.substitute id replacement

end Recounts

/-! ## Whole histories -/

/-- A store made with a limit holds what its history tells. -/
theorem recounts_replay (limit : Option Nat) (history : List Operation) :
    Recounts limit history (replay limit history) := by
  induction history using List.reverseRecOn with
  | nil =>
      refine ⟨rfl, List.nodup_nil, rfl, fun _ => rfl, ?_⟩
      cases limit <;> simp [replay, Operation.tests, upTo]
  | append_singleton history operation ih =>
      rw [replay, List.foldl_append]
      exact ih.after operation

/-- An entry of a store whose names are distinct is found by its name. -/
theorem binding?_of_mem_named (hnames : (store.named.map Prod.fst).Nodup)
    {entry : String × Binding} (h : entry ∈ store.named) :
    store.binding? entry.1 = some entry.2 := by
  unfold binding?
  generalize store.named = named at hnames h
  induction named with
  | nil => exact absurd h List.not_mem_nil
  | cons head rest ih =>
      rw [List.map_cons, List.nodup_cons] at hnames
      rw [lookup_cons_if]
      rcases List.mem_cons.mp h with rfl | hrest
      · exact if_pos rfl
      · have hother : entry.1 ≠ head.1 := fun heq => hnames.1 (heq ▸ List.mem_map_of_mem hrest)
        rw [if_neg hother, ih hnames.2 hrest]

/-- A test is refused if the tests are as many as the limit says, and the store stays as it is;
otherwise it becomes the last of the tests, and the answer is its position. -/
def TakesOrRefuses (limit : Option Nat) (store : Store) (test : Term) : Prop :=
  (∃ most, limit = some most ∧ store.branch.length = most ∧
    store.push test = .error (.capacityExceeded most) ∧ store.after (.push test) = store) ∨
  ((∀ most, limit = some most → store.branch.length < most) ∧
    ∃ next, store.push test = .ok (store.branch.length, next) ∧
      next = { store with branch := store.branch ++ [test] } ∧
      next.branch[store.branch.length]? = some test ∧ store.after (.push test) = next)

theorem Recounts.length_branch_le (h : Recounts limit history store) :
    ∀ most, limit = some most → store.branch.length ≤ most := by
  rintro most rfl
  rw [h.branch]
  exact List.length_take_le most _

theorem Recounts.takesOrRefuses (h : Recounts limit history store) (test : Term) :
    TakesOrRefuses limit store test := by
  cases hroom : store.hasRoom with
  | true =>
      refine .inr ⟨fun most hmost => hasRoom_iff.mp hroom most (h.capacity.trans hmost),
        store.take test, push_of_hasRoom hroom test, rfl, ?_, after_push_of_hasRoom hroom test⟩
      simp [take]
  | false =>
      obtain ⟨most, hmost, hfull⟩ := hasRoom_eq_false_iff.mp hroom
      have hlimit : limit = some most := h.capacity.symm.trans hmost
      refine .inl ⟨most, hlimit, Nat.le_antisymm (h.length_branch_le most hlimit) hfull, ?_,
        after_push_of_not_hasRoom hroom test⟩
      rw [push_of_not_hasRoom hroom, refusal, hmost, Option.getD_some]

/-- **A store is an ordered map beside a bounded list.**  After any history of bindings, pushes and
replacements, the names are distinct and stand in the order of their first bindings, each with its
last one; the tests are those that were pushed, up to the limit, with the replacements made since.
The next push is taken, and answered by its position, exactly if the limit is not reached; the next
replacement changes tests that mention the variable only, and no entry; and the store shows its
assertions one by one. -/
theorem replay_refines_history (limit : Option Nat) (history : List Operation) :
    let store := replay limit history
    ((store.named.map Prod.fst).Nodup ∧
      store.named.map Prod.fst = ((Operation.bindings history).map Prod.fst).eraseDups ∧
      (∀ entry ∈ store.named,
        (Operation.bindings history).reverse.lookup entry.1 = some entry.2) ∧
      ∀ name, store.binding? name = (Operation.bindings history).reverse.lookup name) ∧
    (store.branch = upTo limit (Operation.tests history) ∧
      ∀ most, limit = some most → store.branch.length ≤ most) ∧
    (∀ test, TakesOrRefuses limit store test) ∧
    (∀ id replacement,
      (store.after (.substitute id replacement)).named = store.named ∧
      (store.after (.substitute id replacement)).branch =
        store.branch.map (fun test => test.substitute id replacement) ∧
      ∀ test ∈ store.branch, test.mentions id = false →
        test.substitute id replacement = test) ∧
    store.rendered = store.assertions.map Term.render := by
  intro store
  have h : Recounts limit history store := recounts_replay limit history
  refine ⟨⟨h.distinct, h.names, fun entry hentry => ?_, h.last⟩, ⟨h.branch, h.length_branch_le⟩,
    h.takesOrRefuses, fun id replacement =>
      ⟨rfl, store.branch_substituteInTests id replacement, fun test _ hmentions => ?_⟩,
    store.rendered_eq⟩
  · rw [← h.last]
    exact binding?_of_mem_named h.distinct hentry
  · exact Term.substitute_eq_self hmentions replacement

/-- A name that is bound again stays in front, the second test is refused, and the first has the
replacement made after it. -/
example :
    let x : Var := ⟨0, "x", .bool⟩
    let y : Var := ⟨1, "y", .bool⟩
    let store := replay (some 1) [.bind "x" ⟨x, .const (.bool true)⟩, .bind "y" ⟨y, .var x⟩,
      .push (.not (.var x)), .push (.var y), .bind "x" ⟨x, .const (.bool false)⟩,
      .substitute 0 (.const (.bool true))]
    store.named = [("x", ⟨x, .const (.bool false)⟩), ("y", ⟨y, .var x⟩)] ∧
      store.branch = [.not (.const (.bool true))] := by
  decide +kernel

end Store

end BranchWitness
