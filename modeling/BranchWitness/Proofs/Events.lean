import BranchWitness.Proofs.Executions

/-!
# The events of an exploration

What an exploration does, beside its state, is told by `Exploration.events` in the order of time:
the exploration *comes* to a statement, to execute it or to leave it out, and a conditional or a
loop *asks* the solver.  An event names the statement by its position and by the innermost loop
around it (`Site`), because it is in this loop that lines count as reached.

* The statements come to are some of the statements of the program, in their order, with the loops
  that are around them there (`Exploration.sublist_events`).
* Those come to and executed are the executions (`Exploration.executions`); so every statement is
  executed at most once (`Exploration.sublist_executions`).
* What holds of the single moves, with the events that belong to them, holds of every exploration
  with its events (`Exploration.Logged`).  For relations that speak of the executions only, fewer
  moves have to be told apart (`Exploration.Closed`).
-/

namespace BranchWitness

/-! ## Statements and the loops around them -/

/-- A statement in its place. -/
structure Site where
  /-- The position of the statement. -/
  position : Nat
  /-- The position of the innermost loop around it, if there is one. -/
  loop? : Option Nat
  /-- The statement. -/
  stmt : Stmt

/-- The statement with its position. -/
def Site.node (site : Site) : Stmt × Nat :=
  (site.stmt, site.position)

namespace Stmt

mutual

/-- The sites of the statements inside a statement.  The branches of a conditional are in the loop
that the conditional is in, the body of a loop is in this loop. -/
def sitesInside : Stmt → Option Nat → Nat → List Site
  | .conditional _ _ body orelse, loop?, position =>
      sites body loop? (position + 1) ++ sites orelse loop? (position + 1 + (nodes body).length)
  | .loop _ _ body, _, position => sites body (some position) (position + 1)
  | .declaration _ _ _ _, _, _ => []
  | .reassignment _ _ _, _, _ => []
  | .other _ _, _, _ => []

/-- The sites of statements that stand from the given position on in the given loop, in the order of
`Stmt.nodes`. -/
def sites : List Stmt → Option Nat → Nat → List Site
  | [], _, _ => []
  | stmt :: rest, loop?, position =>
      ⟨position, loop?, stmt⟩ ::
        (sitesInside stmt loop? position ++ sites rest loop? (position + 1 + (parts stmt).length))

end

mutual

theorem node_sitesInside :
    ∀ (stmt : Stmt) (loop? : Option Nat) (position : Nat),
      (sitesInside stmt loop? position).map Site.node = (parts stmt).zipIdx (position + 1)
  | .conditional _ _ body orelse, loop?, position => by
      rw [sitesInside, parts, List.map_append, List.zipIdx_append, node_sites body,
        node_sites orelse]
  | .loop _ _ body, _, position => by rw [sitesInside, parts, node_sites body]
  | .declaration _ _ _ _, _, _ => by rw [sitesInside, parts, List.map_nil, List.zipIdx_nil]
  | .reassignment _ _ _, _, _ => by rw [sitesInside, parts, List.map_nil, List.zipIdx_nil]
  | .other _ _, _, _ => by rw [sitesInside, parts, List.map_nil, List.zipIdx_nil]

/-- The sites are those of all the statements, at their positions. -/
theorem node_sites :
    ∀ (stmts : List Stmt) (loop? : Option Nat) (position : Nat),
      (sites stmts loop? position).map Site.node = (nodes stmts).zipIdx position
  | [], _, _ => by rw [sites, nodes, List.map_nil, List.zipIdx_nil]
  | stmt :: rest, loop?, position => by
      rw [sites, nodes, List.map_cons, List.map_append, List.zipIdx_cons, List.zipIdx_append,
        node_sitesInside stmt, node_sites rest]
      rfl

end

end Stmt

/-! ## Events -/

/-- What happens. -/
inductive EventKind where
  /-- The exploration comes to the statement, to execute it or to leave it out. -/
  | comes
  /-- The statement asks the solver. -/
  | asks
  deriving DecidableEq

/-- An event of an exploration. -/
structure Event where
  /-- What happens. -/
  kind : EventKind
  /-- The statement. -/
  site : Site
  /-- The state in which it happens. -/
  state : Exploration

namespace Event

/-- Whether the exploration comes to a statement. -/
def comes (event : Event) : Bool :=
  event.kind = .comes

/-- Whether the exploration comes to a statement and executes it. -/
def executed (event : Event) : Bool :=
  event.comes && (event.state.reach event.site.stmt.line).isSome

/-- Whether the exploration comes to a statement and leaves it out. -/
def skipped (event : Event) : Bool :=
  event.comes && (event.state.reach event.site.stmt.line).isNone

/-- The execution of the statement, if the exploration comes to it and executes it. -/
def execution? (solver : Backend) (tracing : Bool) (event : Event) : Option Execution :=
  match event.kind with
  | .asks => none
  | .comes => (event.state.reach event.site.stmt.line).map fun reached =>
      ⟨event.site.position, event.site.stmt, reached,
        (Exploration.perform solver tracing event.site.stmt reached).2⟩

end Event

namespace Exploration

/-- The state in which a conditional asks about its negated test. -/
def takeNegation (tracing : Bool) (test : Term) (position : Nat) (state : Exploration) :
    Exploration :=
  (state.take (.not test)).noteElse tracing position

/-- The state in which a loop asks about its test. -/
def takeLoop (test : Term) (state : Exploration) : Exploration :=
  (state.countLoop.take test).countLoopCheck

/-- The events at a statement, given those inside it. -/
def comesTo (site : Site) (inside : Exploration → List Event) (state : Exploration) : List Event :=
  ⟨.comes, site, state⟩ ::
    match state.reach site.stmt.line with
    | none => []
    | some reached => inside reached

/-- The events in the branches of a conditional, given those in each branch.  It asks behind its
body and, if there is another branch, before this one. -/
def conditionalEvents (solver : Backend) (tracing : Bool) (site : Site) (condition : Expr)
    (explored : Exploration → Exploration) (body : Exploration → List Event)
    (orelse : Option (Exploration → List Event)) (state : Exploration) : List Event :=
  match condition.constraint state.bindings with
  | .error _ => []
  | .ok test =>
      if state.store.hasRoom then
        let entered := state.enterTrue tracing site.stmt.line test
        let back := state.trueBranch solver tracing site.stmt.line test explored
        let negated := back.takeNegation tracing test state.trace.length
        body entered ++ ⟨.asks, site, explored entered⟩ ::
          match orelse with
          | none => []
          | some orelse => ⟨.asks, site, negated⟩ :: orelse (negated.check solver site.stmt.line)
      else []

/-- The events in a loop, given those in its body.  It asks before its body. -/
def loopEvents (solver : Backend) (site : Site) (condition : Expr)
    (body : Exploration → List Event) (state : Exploration) : List Event :=
  match condition.constraint state.bindings with
  | .error _ => []
  | .ok test =>
      if state.store.hasRoom then
        ⟨.asks, site, state.takeLoop test⟩ :: body (state.enterBody solver site.stmt.line test)
      else []

mutual

/-- The events inside a statement, once it is reached. -/
def eventsInside (solver : Backend) (tracing : Bool) :
    Stmt → Option Nat → Nat → Exploration → List Event
  | .conditional line condition body orelse, loop?, position =>
      conditionalEvents solver tracing ⟨position, loop?, .conditional line condition body orelse⟩
        condition (explore solver tracing body)
        (events solver tracing body loop? (position + 1))
        (if orelse.isEmpty then none
          else some (events solver tracing orelse loop? (position + 1 + (Stmt.nodes body).length)))
  | .loop line condition body, loop?, position =>
      loopEvents solver ⟨position, loop?, .loop line condition body⟩ condition
        (events solver tracing body (some position) (position + 1))
  | .declaration _ _ _ _, _, _ => fun _ => []
  | .reassignment _ _ _, _, _ => fun _ => []
  | .other _ _, _, _ => fun _ => []

/-- The events of the statements that stand from the given position on in the given loop. -/
def events (solver : Backend) (tracing : Bool) :
    List Stmt → Option Nat → Nat → Exploration → List Event
  | [], _, _ => fun _ => []
  | stmt :: rest, loop?, position => fun state =>
      comesTo ⟨position, loop?, stmt⟩ (eventsInside solver tracing stmt loop? position) state ++
        events solver tracing rest loop? (position + 1 + stmt.parts.length)
          (execute solver tracing stmt state)

end

variable {solver : Backend} {tracing : Bool} {line : Line} {condition : Expr} {test : Term}
  {loop? : Option Nat} {position : Nat} {state reached : Exploration}

theorem events_nil (solver : Backend) (tracing : Bool) (loop? : Option Nat) (position : Nat)
    (state : Exploration) : events solver tracing [] loop? position state = [] := by
  rw [events]

theorem events_cons (solver : Backend) (tracing : Bool) (stmt : Stmt) (rest : List Stmt)
    (loop? : Option Nat) (position : Nat) (state : Exploration) :
    events solver tracing (stmt :: rest) loop? position state =
      comesTo ⟨position, loop?, stmt⟩ (eventsInside solver tracing stmt loop? position) state ++
        events solver tracing rest loop? (position + 1 + stmt.parts.length)
          (execute solver tracing stmt state) := by
  rw [events]

/-! ## The statements come to -/

/-- The sites that are come to. -/
def visited (log : List Event) : List Site :=
  (log.filter Event.comes).map Event.site

theorem visited_append (log log' : List Event) :
    visited (log ++ log') = visited log ++ visited log' := by
  rw [visited, List.filter_append, List.map_append]
  rfl

theorem visited_asks (site : Site) (state : Exploration) (log : List Event) :
    visited (⟨.asks, site, state⟩ :: log) = visited log :=
  rfl

theorem sublist_comesTo {site : Site} {inside : Exploration → List Event} {sites : List Site}
    (hinside : ∀ reached, (visited (inside reached)).Sublist sites) (state : Exploration) :
    (visited (comesTo site inside state)).Sublist (site :: sites) := by
  unfold comesTo
  cases state.reach site.stmt.line with
  | none => exact (List.nil_sublist _).cons_cons site
  | some reached => exact (hinside reached).cons_cons site

mutual

theorem sublist_eventsInside (solver : Backend) (tracing : Bool) :
    ∀ (stmt : Stmt) (loop? : Option Nat) (position : Nat) (state : Exploration),
      (visited (eventsInside solver tracing stmt loop? position state)).Sublist
        (stmt.sitesInside loop? position)
  | .conditional line condition body orelse, loop?, position, state => by
      have hbody := sublist_events solver tracing body
      have horelse := sublist_events solver tracing orelse
      rw [eventsInside, conditionalEvents, Stmt.sitesInside]
      split
      · exact List.nil_sublist _
      · split
        · rw [visited_append]
          refine (hbody _ _ _).append ?_
          cases orelse with
          | nil => exact List.nil_sublist _
          | cons first rest => exact horelse _ _ _
        · exact List.nil_sublist _
  | .loop line condition body, loop?, position, state => by
      rw [eventsInside, loopEvents, Stmt.sitesInside]
      split
      · exact List.nil_sublist _
      · split
        · rw [visited_asks]
          exact sublist_events solver tracing body _ _ _
        · exact List.nil_sublist _
  | .declaration _ _ _ _, _, _, _ => by rw [eventsInside]; exact List.nil_sublist _
  | .reassignment _ _ _, _, _, _ => by rw [eventsInside]; exact List.nil_sublist _
  | .other _ _, _, _, _ => by rw [eventsInside]; exact List.nil_sublist _

/-- The statements come to are some of the statements, in their order and in their loops. -/
theorem sublist_events (solver : Backend) (tracing : Bool) :
    ∀ (stmts : List Stmt) (loop? : Option Nat) (position : Nat) (state : Exploration),
      (visited (events solver tracing stmts loop? position state)).Sublist
        (Stmt.sites stmts loop? position)
  | [], _, _, _ => by
      rw [events_nil]
      exact List.nil_sublist _
  | stmt :: rest, loop?, position, state => by
      rw [events_cons, Stmt.sites, visited_append]
      exact (sublist_comesTo (sublist_eventsInside solver tracing stmt loop? position) state).append
        (sublist_events solver tracing rest _ _ _)

end

/-- No statement is come to twice. -/
theorem nodup_visited (solver : Backend) (tracing : Bool) (stmts : List Stmt) (loop? : Option Nat)
    (position : Nat) (state : Exploration) :
    ((visited (events solver tracing stmts loop? position state)).map Site.position).Nodup := by
  have hsublist := ((sublist_events solver tracing stmts loop? position state).map Site.node).map
    Prod.snd
  rw [Stmt.node_sites, List.zipIdx_map_snd, List.map_map] at hsublist
  exact hsublist.nodup List.nodup_range'

/-! ## The statements executed -/

/-- The executions of the statements that stand from the given position on, in the order in which
they begin. -/
def executions (solver : Backend) (tracing : Bool) (stmts : List Stmt) (position : Nat)
    (state : Exploration) : List Execution :=
  (events solver tracing stmts none position state).filterMap (Event.execution? solver tracing)

theorem filterMap_comes_of_reach {site : Site} (hreach : state.reach site.stmt.line = some reached)
    (log : List Event) :
    (⟨.comes, site, state⟩ :: log).filterMap (Event.execution? solver tracing) =
      ⟨site.position, site.stmt, reached, (perform solver tracing site.stmt reached).2⟩ ::
        log.filterMap (Event.execution? solver tracing) := by
  rw [List.filterMap_cons_some]
  simp [Event.execution?, hreach]

/-- The executions at a statement that is reached: its own, and those inside it. -/
theorem filterMap_comesTo {site : Site} (hreach : state.reach site.stmt.line = some reached)
    (inside : Exploration → List Event) :
    (comesTo site inside state).filterMap (Event.execution? solver tracing) =
      ⟨site.position, site.stmt, reached, (perform solver tracing site.stmt reached).2⟩ ::
        (inside reached).filterMap (Event.execution? solver tracing) := by
  rw [comesTo, hreach]
  exact filterMap_comes_of_reach hreach (inside reached)

/-- A statement that is left out is not executed, and nothing inside it is. -/
theorem filterMap_comesTo_of_none {site : Site} (hreach : state.reach site.stmt.line = none)
    (inside : Exploration → List Event) :
    (comesTo site inside state).filterMap (Event.execution? solver tracing) = [] := by
  rw [comesTo, hreach]
  simp [Event.execution?, hreach]

theorem sublist_filterMap_execution (log : List Event) :
    ((log.filterMap (Event.execution? solver tracing)).map Execution.node).Sublist
      ((visited log).map Site.node) := by
  induction log with
  | nil => exact List.Sublist.refl _
  | cons event rest ih =>
      obtain ⟨kind, site, state⟩ := event
      cases kind with
      | asks => exact ih
      | comes =>
          cases hreach : state.reach site.stmt.line with
          | none =>
              rw [List.filterMap_cons_none (by simp [Event.execution?, hreach])]
              exact ih.cons _
          | some reached =>
              rw [filterMap_comes_of_reach hreach]
              exact ih.cons_cons _

/-- The executed statements are some of the statements, in their order. -/
theorem sublist_executions (solver : Backend) (tracing : Bool) (stmts : List Stmt)
    (position : Nat) (state : Exploration) :
    ((executions solver tracing stmts position state).map Execution.node).Sublist
      ((Stmt.nodes stmts).zipIdx position) := by
  rw [← Stmt.node_sites stmts none]
  exact (sublist_filterMap_execution _).trans
    ((sublist_events solver tracing stmts none position state).map Site.node)

/-- Every statement is executed at most once. -/
theorem nodup_positions (solver : Backend) (tracing : Bool) (stmts : List Stmt)
    (state : Exploration) :
    ((executions solver tracing stmts 0 state).map Execution.position).Nodup := by
  have hsublist := (sublist_executions solver tracing stmts 0 state).map Prod.snd
  rw [List.map_map, List.zipIdx_map_snd] at hsublist
  exact hsublist.nodup List.nodup_range'

/-! ## From the moves to whole explorations -/

/-- A relation between states and the events on the way from one to the other that holds of the
moves of an exploration.  It may speak of the loop in which the statements stand, and of the
positions between which they stand. -/
structure Logged (solver : Backend) (tracing : Bool)
    (R : Option Nat → Nat → Nat → Exploration → List Event → Exploration → Prop) : Prop where
  nil (loop? : Option Nat) (position : Nat) (state : Exploration) :
      R loop? position position state [] state
  append {loop? : Option Nat} {start middle stop : Nat} {first second third : Exploration}
      {log log' : List Event} (h : R loop? start middle first log second)
      (h' : R loop? middle stop second log' third) : R loop? start stop first (log ++ log') third
  skip {state : Exploration} (site : Site) (hreach : state.reach site.stmt.line = none) :
      R site.loop? site.position (site.position + 1 + site.stmt.parts.length) state
        [⟨.comes, site, state⟩] state.skip
  /-- Nothing happens inside the statement. -/
  single {state reached : Exploration} (site : Site)
      (hreach : state.reach site.stmt.line = some reached)
      (h : site.stmt.branches = true →
        ((perform solver tracing site.stmt reached).2).isSome = true) :
      R site.loop? site.position (site.position + 1 + site.stmt.parts.length) state
        [⟨.comes, site, state⟩] (settle site.stmt.line (perform solver tracing site.stmt reached))
  ifTrue {state reached explored : Exploration} {condition : Expr} {test : Term}
      {body : List Stmt} {stop : Nat} {log : List Event} (site : Site)
      (hsite : site.stmt = .conditional site.stmt.line condition body [])
      (hreach : state.reach site.stmt.line = some reached)
      (htest : condition.constraint reached.bindings = .ok test)
      (hroom : reached.store.hasRoom = true)
      (hbody : R site.loop? (site.position + 1) stop
        (reached.enterTrue tracing site.stmt.line test) log explored) :
      R site.loop? site.position stop state
        (⟨.comes, site, state⟩ :: (log ++ [⟨.asks, site, explored⟩]))
        ((explored.check solver site.stmt.line).backTo reached)
  ifElse {state reached explored explored' : Exploration} {condition : Expr} {test : Term}
      {body : List Stmt} {first : Stmt} {rest : List Stmt} {middle stop : Nat}
      {log log' : List Event} (site : Site)
      (hsite : site.stmt = .conditional site.stmt.line condition body (first :: rest))
      (hreach : state.reach site.stmt.line = some reached)
      (htest : condition.constraint reached.bindings = .ok test)
      (hroom : reached.store.hasRoom = true)
      (hbody : R site.loop? (site.position + 1) middle
        (reached.enterTrue tracing site.stmt.line test) log explored)
      (horelse : R site.loop? middle stop
        ((((explored.check solver site.stmt.line).backTo reached).takeNegation tracing test
          reached.trace.length).check solver site.stmt.line) log' explored') :
      R site.loop? site.position stop state
        (⟨.comes, site, state⟩ :: (log ++ ⟨.asks, site, explored⟩ ::
          ⟨.asks, site, ((explored.check solver site.stmt.line).backTo reached).takeNegation
            tracing test reached.trace.length⟩ :: log'))
        (explored'.backTo reached)
  loop {state reached explored : Exploration} {condition : Expr} {test : Term}
      {body : List Stmt} {stop : Nat} {log : List Event} (site : Site)
      (hsite : site.stmt = .loop site.stmt.line condition body)
      (hreach : state.reach site.stmt.line = some reached)
      (htest : condition.constraint reached.bindings = .ok test)
      (hroom : reached.store.hasRoom = true)
      (hbody : R (some site.position) (site.position + 1) stop
        (reached.enterBody solver site.stmt.line test) log explored) :
      R site.loop? site.position stop state
        (⟨.comes, site, state⟩ :: ⟨.asks, site, reached.takeLoop test⟩ :: log)
        (explored.leaveLoop.backTo reached)

namespace Logged

variable {R : Option Nat → Nat → Nat → Exploration → List Event → Exploration → Prop}

/-- A statement is left out or executed. -/
theorem step (hlogged : Logged solver tracing R) (site : Site)
    (hrun : ∀ reached, state.reach site.stmt.line = some reached →
      R site.loop? site.position (site.position + 1 + site.stmt.parts.length) state
        (⟨.comes, site, state⟩ ::
          eventsInside solver tracing site.stmt site.loop? site.position reached)
        (settle site.stmt.line (perform solver tracing site.stmt reached))) :
    R site.loop? site.position (site.position + 1 + site.stmt.parts.length) state
      (comesTo site (eventsInside solver tracing site.stmt site.loop? site.position) state)
      (Exploration.execute solver tracing site.stmt state) := by
  rw [execute_eq_step, comesTo]
  cases hreach : state.reach site.stmt.line with
  | none =>
      rw [step_of_reach_eq_none hreach]
      exact hlogged.skip site hreach
  | some reached =>
      rw [step_of_reach_eq_some hreach]
      exact hrun reached hreach

/-- A statement with nothing inside it. -/
theorem plain (hlogged : Logged solver tracing R) (site : Site)
    (hbranches : site.stmt.branches = false)
    (hinside : ∀ reached,
      eventsInside solver tracing site.stmt site.loop? site.position reached = []) :
    R site.loop? site.position (site.position + 1 + site.stmt.parts.length) state
      (comesTo site (eventsInside solver tracing site.stmt site.loop? site.position) state)
      (Exploration.execute solver tracing site.stmt state) := by
  refine hlogged.step site fun reached hreach => ?_
  rw [hinside]
  exact hlogged.single site hreach (by simp [hbranches])

theorem conditional (hlogged : Logged solver tracing R) {body orelse : List Stmt}
    (hbody : ∀ loop? position state,
      R loop? position (position + (Stmt.nodes body).length) state
        (events solver tracing body loop? position state)
        (Exploration.explore solver tracing body state))
    (horelse : ∀ loop? position state,
      R loop? position (position + (Stmt.nodes orelse).length) state
        (events solver tracing orelse loop? position state)
        (Exploration.explore solver tracing orelse state))
    (hreach : state.reach line = some reached) :
    R loop? position
      (position + 1 + (Stmt.conditional line condition body orelse).parts.length) state
      (⟨.comes, ⟨position, loop?, .conditional line condition body orelse⟩, state⟩ ::
        eventsInside solver tracing (.conditional line condition body orelse) loop? position
          reached)
      (settle line (perform solver tracing (.conditional line condition body orelse) reached)) := by
  have hsingle := hlogged.single ⟨position, loop?, .conditional line condition body orelse⟩ hreach
  rw [eventsInside, conditionalEvents]
  obtain ⟨error, htest, heq⟩ | ⟨test, htest, hroom, heq⟩ | ⟨test, htest, hroom, heq⟩ :=
    perform_conditional solver tracing line condition body orelse reached
  · rw [heq] at hsingle ⊢
    rw [htest]
    exact hsingle fun _ => rfl
  · rw [heq] at hsingle ⊢
    rw [htest, hroom]
    exact hsingle fun _ => rfl
  · rw [heq, htest, hroom, Stmt.parts, List.length_append, ← Nat.add_assoc]
    -- without an `else` the negated test is not taken, so there is no second state to explore from
    cases orelse with
    | nil =>
        rw [Stmt.nodes]
        exact hlogged.ifTrue ⟨position, loop?, .conditional line condition body []⟩ rfl hreach htest
          hroom (hbody _ _ _)
    | cons first rest =>
        exact hlogged.ifElse ⟨position, loop?, .conditional line condition body (first :: rest)⟩ rfl
          hreach htest hroom (hbody _ _ _) (horelse _ _ _)

theorem unroll (hlogged : Logged solver tracing R) {body : List Stmt}
    (hbody : ∀ loop? position state,
      R loop? position (position + (Stmt.nodes body).length) state
        (events solver tracing body loop? position state)
        (Exploration.explore solver tracing body state))
    (hreach : state.reach line = some reached) :
    R loop? position (position + 1 + (Stmt.loop line condition body).parts.length) state
      (⟨.comes, ⟨position, loop?, .loop line condition body⟩, state⟩ ::
        eventsInside solver tracing (.loop line condition body) loop? position reached)
      (settle line (perform solver tracing (.loop line condition body) reached)) := by
  have hsingle := hlogged.single ⟨position, loop?, .loop line condition body⟩ hreach
  rw [eventsInside]
  obtain ⟨error, htest, heq⟩ | ⟨test, htest, hroom, heq⟩ | ⟨test, htest, hroom, heq⟩ :=
    perform_loop solver tracing line condition body reached
  · rw [heq] at hsingle ⊢
    rw [loopEvents, htest]
    exact hsingle fun _ => rfl
  · rw [heq] at hsingle ⊢
    rw [loopEvents, htest, hroom]
    exact hsingle fun _ => rfl
  · rw [heq, loopEvents, htest, hroom, Stmt.parts]
    exact hlogged.loop ⟨position, loop?, .loop line condition body⟩ rfl hreach htest hroom
      (hbody _ _ _)

mutual

theorem execute (hlogged : Logged solver tracing R) :
    ∀ (stmt : Stmt) (loop? : Option Nat) (position : Nat) (state : Exploration),
      R loop? position (position + 1 + stmt.parts.length) state
        (comesTo ⟨position, loop?, stmt⟩ (eventsInside solver tracing stmt loop? position) state)
        (Exploration.execute solver tracing stmt state)
  | .declaration line target annotation value, loop?, position, _ =>
      hlogged.plain ⟨position, loop?, .declaration line target annotation value⟩ rfl fun _ => by
        rw [eventsInside]
  | .reassignment line targets value, loop?, position, _ =>
      hlogged.plain ⟨position, loop?, .reassignment line targets value⟩ rfl fun _ => by
        rw [eventsInside]
  | .conditional line condition body orelse, loop?, position, _ =>
      hlogged.step ⟨position, loop?, .conditional line condition body orelse⟩ fun _ hreach =>
        hlogged.conditional (hlogged.explore body) (hlogged.explore orelse) hreach
  | .loop line condition body, loop?, position, _ =>
      hlogged.step ⟨position, loop?, .loop line condition body⟩ fun _ hreach =>
        hlogged.unroll (hlogged.explore body) hreach
  | .other line label, loop?, position, _ =>
      hlogged.plain ⟨position, loop?, .other line label⟩ rfl fun _ => by rw [eventsInside]

/-- What holds of the moves holds of every exploration with its events. -/
theorem explore (hlogged : Logged solver tracing R) :
    ∀ (stmts : List Stmt) (loop? : Option Nat) (position : Nat) (state : Exploration),
      R loop? position (position + (Stmt.nodes stmts).length) state
        (events solver tracing stmts loop? position state)
        (Exploration.explore solver tracing stmts state)
  | [], loop?, position, state => by
      rw [events_nil, explore_nil]
      exact hlogged.nil loop? position state
  | stmt :: rest, loop?, position, state => by
      have hlength : position + (Stmt.nodes (stmt :: rest)).length =
          position + 1 + stmt.parts.length + (Stmt.nodes rest).length := by
        rw [Stmt.nodes, List.length_cons, List.length_append]
        omega
      rw [events_cons, explore_cons, hlength]
      exact hlogged.append (hlogged.execute stmt loop? position state) (hlogged.explore rest _ _ _)

end

end Logged

/-! ## Relations that speak of the executions only -/

/-- A relation between states and the executions on the way from one to the other that holds of the
moves of an exploration: of a statement left out, of a statement that fails or has no branches, and
of a statement with branches if it holds of these. -/
structure Closed (solver : Backend) (tracing : Bool)
    (R : Exploration → List Execution → Exploration → Prop) : Prop where
  nil (state : Exploration) : R state [] state
  append {first second third : Exploration} {log log' : List Execution} (h : R first log second)
      (h' : R second log' third) : R first (log ++ log') third
  skip (state : Exploration) : R state [] state.skip
  /-- Nothing is executed inside the statement. -/
  single {state reached : Exploration} (stmt : Stmt) (position : Nat)
      (hreach : state.reach stmt.line = some reached)
      (h : stmt.branches = true → ((perform solver tracing stmt reached).2).isSome = true) :
      R state [⟨position, stmt, reached, (perform solver tracing stmt reached).2⟩]
        (settle stmt.line (perform solver tracing stmt reached))
  ifTrue {state reached explored : Exploration} {line : Line} {condition : Expr} {test : Term}
      {body : List Stmt} {log : List Execution} (position : Nat)
      (hreach : state.reach line = some reached)
      (htest : condition.constraint reached.bindings = .ok test)
      (hroom : reached.store.hasRoom = true)
      (hbody : R (reached.enterTrue tracing line test) log explored) :
      R state (⟨position, .conditional line condition body [], reached, none⟩ :: log)
        ((explored.check solver line).backTo reached)
  ifElse {state reached explored explored' : Exploration} {line : Line} {condition : Expr}
      {test : Term} {body : List Stmt} {first : Stmt} {rest : List Stmt} {log log' : List Execution}
      (position : Nat) (hreach : state.reach line = some reached)
      (htest : condition.constraint reached.bindings = .ok test)
      (hroom : reached.store.hasRoom = true)
      (hbody : R (reached.enterTrue tracing line test) log explored)
      (horelse : R (((explored.check solver line).backTo reached).enterFalse solver tracing line
        test reached.trace.length) log' explored') :
      R state
        (⟨position, .conditional line condition body (first :: rest), reached, none⟩ ::
          (log ++ log'))
        (explored'.backTo reached)
  loop {state reached explored : Exploration} {line : Line} {condition : Expr} {test : Term}
      {body : List Stmt} {log : List Execution} (position : Nat)
      (hreach : state.reach line = some reached)
      (htest : condition.constraint reached.bindings = .ok test)
      (hroom : reached.store.hasRoom = true)
      (hbody : R (reached.enterBody solver line test) log explored) :
      R state (⟨position, .loop line condition body, reached, none⟩ :: log)
        (explored.leaveLoop.backTo reached)

namespace Closed

variable {R : Exploration → List Execution → Exploration → Prop}

/-- The executions are among the events. -/
theorem logged (hclosed : Closed solver tracing R) :
    Logged solver tracing fun _ _ _ before log after =>
      R before (log.filterMap (Event.execution? solver tracing)) after where
  nil _ _ state := hclosed.nil state
  append h h' := by
    rw [List.filterMap_append]
    exact hclosed.append h h'
  skip site hreach := by
    rw [List.filterMap_cons_none (by simp [Event.execution?, hreach])]
    exact hclosed.skip _
  single site hreach h := by
    rw [filterMap_comes_of_reach hreach]
    exact hclosed.single site.stmt site.position hreach h
  ifTrue site hsite hreach htest hroom hbody := by
    obtain ⟨position, loop?, stmt⟩ := site
    cases stmt with
    | conditional line condition body orelse =>
        cases hsite
        rw [filterMap_comes_of_reach hreach, List.filterMap_append, perform,
          conditional_of_room htest hroom]
        exact (List.append_nil _).symm ▸ hclosed.ifTrue position hreach htest hroom hbody
    | _ => cases hsite
  ifElse site hsite hreach htest hroom hbody horelse := by
    obtain ⟨position, loop?, stmt⟩ := site
    cases stmt with
    | conditional line condition body orelse =>
        cases hsite
        rw [filterMap_comes_of_reach hreach, List.filterMap_append, perform,
          conditional_of_room htest hroom]
        exact hclosed.ifElse position hreach htest hroom hbody horelse
    | _ => cases hsite
  loop site hsite hreach htest hroom hbody := by
    obtain ⟨position, loop?, stmt⟩ := site
    cases stmt with
    | loop line condition body =>
        cases hsite
        rw [filterMap_comes_of_reach hreach, perform, unroll_of_room htest hroom]
        exact hclosed.loop position hreach htest hroom hbody
    | _ => cases hsite

/-- What holds of the moves holds of every exploration with its executions. -/
theorem explore (hclosed : Closed solver tracing R) (stmts : List Stmt) (position : Nat)
    (state : Exploration) :
    R state (executions solver tracing stmts position state)
      (Exploration.explore solver tracing stmts state) :=
  hclosed.logged.explore stmts none position state

end Closed

theorem closed_failure (solver : Backend) (tracing : Bool) :
    Closed solver tracing fun _ log _ => ∀ execution ∈ log,
      execution.failure = (perform solver tracing execution.stmt execution.before).2 where
  nil _ := by simp
  append h h' := List.forall_mem_append.mpr ⟨h, h'⟩
  skip _ := by simp
  single _ _ _ _ := by simp
  ifTrue position _ htest hroom hbody := by
    refine List.forall_mem_cons.mpr ⟨?_, hbody⟩
    rw [perform, conditional_of_room htest hroom]
  ifElse position _ htest hroom hbody horelse := by
    refine List.forall_mem_cons.mpr ⟨?_, List.forall_mem_append.mpr ⟨hbody, horelse⟩⟩
    rw [perform, conditional_of_room htest hroom]
  loop position _ htest hroom hbody := by
    refine List.forall_mem_cons.mpr ⟨?_, hbody⟩
    rw [perform, unroll_of_room htest hroom]

/-- The outcome of an execution is that of the statement in the state before it. -/
theorem failure_of_mem_executions {stmts : List Stmt} {position : Nat} {execution : Execution}
    (h : execution ∈ executions solver tracing stmts position state) :
    execution.failure = (perform solver tracing execution.stmt execution.before).2 :=
  (closed_failure solver tracing).explore stmts position state execution h

end Exploration

end BranchWitness
