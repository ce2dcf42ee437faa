import BranchWitness.Proofs.Events

/-!
# What conditionals and loops leave behind

A conditional and a loop go back to the store they started with, however they end.  What they leave
behind on the way of the exploration is in the innermost frame, the lines already reached in the
innermost loop: a loop leaves its own line there, since its body has a frame of its own.  A
conditional has none, so the statements in its branches leave their lines there too
(`Exploration.conditional_leaves_lines_of_its_body`).

How the frames change is told for every exploration with its executions (`Exploration.Notes`): the
innermost frame gains the lines of the statements executed at its depth, and the other frames stay.
-/

namespace BranchWitness

namespace Exploration

/-! ## Frames that gain lines -/

/-- The second stack of frames is the first with these lines added to the innermost frame, if there
is one. -/
def Gains (gained : Line → Prop) : List (List Line) → List (List Line) → Prop
  | [], after => after = []
  | frame :: outer, after =>
      ∃ grown, after = grown :: outer ∧ ∀ line, line ∈ grown ↔ line ∈ frame ∨ gained line

section Gains

variable {gained more : Line → Prop} {first second third : List (List Line)}

theorem Gains.refl (frames : List (List Line)) : Gains (fun _ => False) frames frames := by
  cases frames with
  | nil => exact rfl
  | cons frame outer => exact ⟨frame, rfl, by simp⟩

theorem Gains.trans (h : Gains gained first second) (h' : Gains more second third) :
    Gains (fun line => gained line ∨ more line) first third := by
  cases first with
  | nil =>
      cases h
      exact h'
  | cons frame outer =>
      obtain ⟨grown, rfl, hgrown⟩ := h
      obtain ⟨larger, rfl, hlarger⟩ := h'
      refine ⟨larger, rfl, fun line => ?_⟩
      rw [hlarger, hgrown, or_assoc]

theorem Gains.congr (h : Gains gained first second) (hlines : ∀ line, gained line ↔ more line) :
    Gains more first second := by
  have heq : gained = more := funext fun line => propext (hlines line)
  exact heq ▸ h

theorem Gains.length_eq (h : Gains gained first second) : second.length = first.length := by
  cases first with
  | nil =>
      cases h
      rfl
  | cons frame outer =>
      obtain ⟨grown, rfl, -⟩ := h
      rfl

theorem Gains.tail_eq {frame : List Line} (h : Gains gained (frame :: first) second) :
    second.tail = first := by
  obtain ⟨grown, rfl, -⟩ := h
  rfl

theorem gains_noteLine (line : Line) (frames : List (List Line)) :
    Gains (fun other => other = line) frames (noteLine line frames) := by
  cases frames with
  | nil => exact rfl
  | cons frame outer =>
      refine ⟨line :: frame, rfl, fun other => ?_⟩
      rw [List.mem_cons, or_comm]

/-- A line that is in the innermost frame already is gained for free. -/
theorem Gains.of_mem {line : Line} (h : Gains gained first second)
    (hline : ∃ frame outer, first = frame :: outer ∧ line ∈ frame) :
    Gains (fun other => other = line ∨ gained other) first second := by
  obtain ⟨frame, outer, rfl, hline⟩ := hline
  obtain ⟨grown, hsecond, hgrown⟩ := h
  refine ⟨grown, hsecond, fun other => ?_⟩
  rw [hgrown]
  constructor
  · rintro (hold | hnew)
    · exact .inl hold
    · exact .inr (.inr hnew)
  · rintro (hold | rfl | hnew)
    · exact .inl hold
    · exact .inl hline
    · exact .inr hnew

end Gains

/-! ## What keeps the frames -/

section Frames

variable {solver : Backend} {tracing : Bool} {state : Exploration}

theorem frames_check (solver : Backend) (line : Line) (state : Exploration) :
    (state.check solver line).frames = state.frames := by
  unfold check
  dsimp only
  split <;> rfl

theorem frames_enterConditional (tracing : Bool) (line : Line) (test : Term) (state : Exploration) :
    (state.enterConditional tracing line test).frames = state.frames := by
  cases tracing <;> rfl

theorem frames_enterFalse (solver : Backend) (tracing : Bool) (line : Line) (test : Term)
    (position : Nat) (state : Exploration) :
    (state.enterFalse solver tracing line test position).frames = state.frames := by
  rw [enterFalse, frames_check]
  cases tracing <;> rfl

theorem frames_enterBody (solver : Backend) (line : Line) (test : Term) (state : Exploration) :
    (state.enterBody solver line test).frames = [] :: state.frames :=
  congrArg ([] :: ·) (frames_check solver line _)

theorem frames_settle (line : Line) (result : Exploration × Option Error) :
    (settle line result).frames = result.1.frames := by
  obtain ⟨state, failure⟩ := result
  cases failure with
  | none => rfl
  | some error =>
      change (state.fail line error).frames = state.frames
      unfold fail
      split <;> rfl

/-- A statement that fails or has no branches keeps the frames. -/
theorem frames_perform {stmt : Stmt}
    (h : stmt.branches = true → (perform solver tracing stmt state).2.isSome = true) :
    (perform solver tracing stmt state).1.frames = state.frames := by
  obtain ⟨bindings, nextId, store, trace, conditionals, loops, heq⟩ := exists_perform_eq h
  rw [heq]

end Frames

/-! ## Frames along an exploration -/

/-- The lines of the executions at the given depth. -/
def LinesAt (depth : Nat) (log : List Execution) (line : Line) : Prop :=
  ∃ execution ∈ log, execution.before.frames.length = depth ∧ execution.stmt.line = line

/-- The innermost frame gains the lines of the executions at its depth, the other frames stay, and
no execution is less deep. -/
structure Notes (before : Exploration) (log : List Execution) (after : Exploration) : Prop where
  frames : Gains (LinesAt before.frames.length log) before.frames after.frames
  depth : ∀ execution ∈ log, before.frames.length ≤ execution.before.frames.length

namespace Notes

variable {solver : Backend} {tracing : Bool} {line : Line}
  {state reached first second third before after : Exploration} {log log' : List Execution}

theorem of_frames (h : Notes first log second) (hbefore : before.frames = first.frames)
    (hafter : after.frames = second.frames) : Notes before log after where
  frames := by
    rw [hbefore, hafter]
    exact h.frames
  depth := by
    rw [hbefore]
    exact h.depth

theorem nil (h : after.frames = before.frames) : Notes before [] after where
  frames := by
    rw [h]
    exact (Gains.refl before.frames).congr (by simp [LinesAt])
  depth := by simp

theorem append (h : Notes first log second) (h' : Notes second log' third) :
    Notes first (log ++ log') third := by
  obtain ⟨hframes, hdepth⟩ := h
  obtain ⟨hframes', hdepth'⟩ := h'
  rw [hframes.length_eq] at hframes' hdepth'
  constructor
  · refine (hframes.trans hframes').congr fun line => ?_
    simp only [LinesAt, List.mem_append, or_and_right, exists_or]
  · exact List.forall_mem_append.mpr ⟨hdepth, hdepth'⟩

/-- A statement that is reached leaves its line. -/
theorem enter {stmt : Stmt} (position : Nat) (failure : Option Error)
    (hreach : state.reach stmt.line = some reached) (h : Notes reached log after) :
    Notes state (⟨position, stmt, reached, failure⟩ :: log) after := by
  have hnoted : Gains (fun other => other = stmt.line) state.frames reached.frames := by
    rw [eq_of_reach hreach]
    exact gains_noteLine stmt.line state.frames
  have hlength := hnoted.length_eq
  obtain ⟨hframes, hdepth⟩ := h
  rw [hlength] at hframes hdepth
  constructor
  · refine (hnoted.trans hframes).congr fun line => ?_
    simp [LinesAt, hlength, eq_comm]
  · exact List.forall_mem_cons.mpr ⟨Nat.le_of_eq hlength.symm, hdepth⟩

/-- The body of a loop has a frame of its own. -/
theorem loop (h : Notes first log second) (hfirst : first.frames = [] :: before.frames)
    (hafter : after.frames = second.frames.tail) : Notes before log after := by
  obtain ⟨hframes, hdepth⟩ := h
  rw [hfirst] at hframes hdepth
  -- the frame of the body makes every execution in it deeper than the frames outside
  have hdeeper : ∀ execution ∈ log, before.frames.length < execution.before.frames.length := hdepth
  constructor
  · rw [hafter, hframes.tail_eq]
    refine (Gains.refl before.frames).congr fun line => ?_
    constructor
    · exact False.elim
    · rintro ⟨execution, hexecution, hsame, -⟩
      exact absurd hsame (Nat.ne_of_gt (hdeeper execution hexecution))
  · exact fun execution hexecution => Nat.le_of_lt (hdeeper execution hexecution)

theorem closed (solver : Backend) (tracing : Bool) : Closed solver tracing Notes where
  nil _ := nil rfl
  append h h' := h.append h'
  skip _ := nil rfl
  single stmt position hreach h := by
    refine enter position _ hreach (nil ?_)
    rw [frames_settle]
    exact frames_perform h
  ifTrue position hreach _ _ hbody := by
    refine enter position none hreach (hbody.of_frames ?_ ?_)
    · exact (frames_enterConditional tracing _ _ _).symm
    · exact frames_check solver _ _
  ifElse position hreach _ _ hbody horelse := by
    refine enter position none hreach (Notes.append (hbody.of_frames ?_ rfl)
      (horelse.of_frames ?_ rfl))
    · exact (frames_enterConditional tracing _ _ _).symm
    · rw [frames_enterFalse]
      exact (frames_check solver _ _).symm
  loop position hreach _ _ hbody :=
    enter position none hreach (hbody.loop (frames_enterBody solver _ _ _) rfl)

end Notes

/-! ## Going back -/

section Back

variable {solver : Backend} {tracing : Bool} {line : Line} {state : Exploration}

theorem store_perform_conditional (solver : Backend) (tracing : Bool) (line : Line)
    (condition : Expr) (body orelse : List Stmt) (state : Exploration) :
    (perform solver tracing (.conditional line condition body orelse) state).1.store =
      state.store := by
  obtain ⟨error, -, heq⟩ | ⟨test, -, -, heq⟩ | ⟨test, -, -, heq⟩ :=
    perform_conditional solver tracing line condition body orelse state
  · rw [heq]
  · rw [heq]
    exact store_enterConditional state
  · rw [heq]
    cases orelse <;> rfl

theorem store_perform_loop (solver : Backend) (tracing : Bool) (line : Line) (condition : Expr)
    (body : List Stmt) (state : Exploration) :
    (perform solver tracing (.loop line condition body) state).1.store = state.store := by
  obtain ⟨error, -, heq⟩ | ⟨test, -, -, heq⟩ | ⟨test, -, -, heq⟩ :=
    perform_loop solver tracing line condition body state
  · rw [heq]
  · rw [heq]
    rfl
  · rw [heq]
    rfl

/-- A loop leaves the frame of its body. -/
theorem frames_perform_loop (solver : Backend) (tracing : Bool) (line : Line) (condition : Expr)
    (body : List Stmt) (state : Exploration) :
    (perform solver tracing (.loop line condition body) state).1.frames = state.frames := by
  obtain ⟨error, -, heq⟩ | ⟨test, -, -, heq⟩ | ⟨test, -, -, heq⟩ :=
    perform_loop solver tracing line condition body state
  · rw [heq]
  · rw [heq]
    rfl
  · rw [heq]
    have hbody := ((Notes.closed solver tracing).explore body 0
      (state.enterBody solver line test)).frames
    rw [frames_enterBody] at hbody
    exact hbody.tail_eq

/-- A statement whose execution goes back to the store, executed or left out. -/
theorem store_execute {stmt : Stmt}
    (h : ∀ reached, (perform solver tracing stmt reached).1.store = reached.store)
    (state : Exploration) : (execute solver tracing stmt state).store = state.store := by
  rw [execute_eq_step]
  cases hreach : state.reach stmt.line with
  | none =>
      rw [step_of_reach_eq_none hreach]
      rfl
  | some reached =>
      rw [step_of_reach_eq_some hreach, (keeps_settle stmt.line _ _).store, h, eq_of_reach hreach]

/-- Every statement leaves its line, and so do those executed inside it at the same depth. -/
theorem gains_execute (solver : Backend) (tracing : Bool) (stmt : Stmt) (state : Exploration) :
    Gains (fun other => other = stmt.line ∨
        LinesAt state.frames.length (executions solver tracing [stmt] 0 state) other)
      state.frames (execute solver tracing stmt state).frames := by
  have hnotes := ((Notes.closed solver tracing).explore [stmt] 0 state).frames
  rw [explore_cons, explore_nil] at hnotes
  cases hreach : state.reach stmt.line with
  | none =>
      -- the statement is left out because its line is in the frame already
      exact hnotes.of_mem (mem_of_reach_eq_none hreach)
  | some reached =>
      have hlength : reached.frames.length = state.frames.length := by
        rw [eq_of_reach hreach]
        exact (gains_noteLine stmt.line state.frames).length_eq
      have hown : LinesAt state.frames.length (executions solver tracing [stmt] 0 state)
          stmt.line := by
        rw [executions, events_cons, List.filterMap_append, filterMap_comesTo hreach]
        exact ⟨_, List.mem_cons_self, hlength, rfl⟩
      refine hnotes.congr fun other => ⟨.inr, ?_⟩
      rintro (rfl | hinside)
      · exact hown
      · exact hinside

theorem gains_execute_loop (solver : Backend) (tracing : Bool) (line : Line) (condition : Expr)
    (body : List Stmt) (state : Exploration) :
    Gains (fun other => other = line) state.frames
      (execute solver tracing (.loop line condition body) state).frames := by
  rw [execute_eq_step, Stmt.line]
  cases hreach : state.reach line with
  | none =>
      rw [step_of_reach_eq_none hreach]
      exact ((Gains.refl state.frames).of_mem (mem_of_reach_eq_none hreach)).congr (by simp)
  | some reached =>
      rw [step_of_reach_eq_some hreach, frames_settle, frames_perform_loop, eq_of_reach hreach]
      exact gains_noteLine line state.frames

end Back

/-- **Conditionals and loops go back.**  However a conditional or a loop ends, the store is what it
was before.  The frames are the same, but for the innermost one: it gains the line of the statement
and, if this is a conditional, the lines of the statements executed in its branches at the depth of
this frame. -/
theorem branches_go_back (solver : Backend) (tracing : Bool) (line : Line) (condition : Expr)
    (body orelse : List Stmt) (state : Exploration) :
    let conditional := Stmt.conditional line condition body orelse
    let loop := Stmt.loop line condition body
    let log := executions solver tracing [conditional] 0 state
    (execute solver tracing conditional state).store = state.store ∧
      Gains (fun other => other = line ∨ LinesAt state.frames.length log other) state.frames
        (execute solver tracing conditional state).frames ∧
      (execute solver tracing loop state).store = state.store ∧
      Gains (fun other => other = line) state.frames
        (execute solver tracing loop state).frames :=
  ⟨store_execute (store_perform_conditional solver tracing line condition body orelse) state,
    gains_execute solver tracing (.conditional line condition body orelse) state,
    store_execute (store_perform_loop solver tracing line condition body) state,
    gains_execute_loop solver tracing line condition body state⟩

/-- A conditional inside a loop leaves more than its own line: here the line `3` of the statement in
its body. -/
theorem conditional_leaves_lines_of_its_body :
    ¬ Gains (fun other => other = 2) (start none).enterLoop.frames
      (execute (fun _ _ => .timeout) false
        (.conditional 2 (.literal (.bool true)) [.other 3 none] [])
        (start none).enterLoop).frames := by
  rintro ⟨grown, hgrown, hlines⟩
  have hframes : [[3, 2]] = grown :: ([] : List (List Line)) := hgrown
  cases hframes
  have hnew : (3 : Line) ∈ ([] : List Line) ∨ (3 : Line) = 2 := (hlines 3).mp List.mem_cons_self
  revert hnew
  decide

end Exploration

end BranchWitness
