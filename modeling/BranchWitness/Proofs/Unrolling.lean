import BranchWitness.Proofs.Accounting
import BranchWitness.Proofs.Ledger
import BranchWitness.Proofs.Restoration
import Mathlib.Data.List.Induction

/-!
# One unrolling of each loop

A loop is unrolled once, in a frame of its own, and in this frame every line is executed once.  The
frame is part of the state, but whose frame it is and how its lines came there is not.  The events
tell it: whenever the exploration is at a statement, the innermost frame holds the lines of the
statements executed before in the innermost loop around it, and no others, and this loop has asked
the solver before (`Exploration.Innermost`).

The proof follows the exploration with the events up to now (`Exploration.Follows`).  The frames of
different loops do not mix: while the exploration is in a loop, all events are in this loop or in
loops that stand behind it, and those before it were in loops that stand before it.
-/

namespace BranchWitness

namespace Exploration

variable {solver : Backend} {tracing : Bool} {loop? : Option Nat} {start middle stop : Nat}
  {log log' earlier : List Event} {state other reached : Exploration} {site : Site}

/-! ## The lines executed in a loop -/

/-- The lines executed in a loop, the last one first. -/
def noted (log : List Event) (loop : Nat) : List Line :=
  ((log.filter fun event => event.executed && event.site.loop? == some loop).map fun event =>
    event.site.stmt.line).reverse

theorem noted_append (log log' : List Event) (loop : Nat) :
    noted (log ++ log') loop = noted log' loop ++ noted log loop := by
  simp [noted]

/-- Events in other loops leave nothing. -/
theorem noted_eq_nil {loop : Nat} (h : ∀ event ∈ log, event.site.loop? ≠ some loop) :
    noted log loop = [] := by
  simp only [noted, List.reverse_eq_nil_iff, List.map_eq_nil_iff, List.filter_eq_nil_iff]
  intro event hevent
  simp [h event hevent]

theorem noted_asks (site : Site) (state : Exploration) (loop : Nat) :
    noted [⟨.asks, site, state⟩] loop = [] := by
  simp [noted, Event.executed, Event.comes]

/-- A statement that is executed leaves its line in its loop. -/
theorem noted_comes (site : Site) (state : Exploration) (loop : Nat) :
    noted [⟨.comes, site, state⟩] loop =
      if (state.reach site.stmt.line).isSome = true ∧ site.loop? = some loop then
        [site.stmt.line]
      else [] := by
  by_cases hreach : (state.reach site.stmt.line).isSome = true
  · by_cases hloop : site.loop? = some loop
    · simp [noted, Event.executed, Event.comes, hreach, hloop]
    · simp [noted, Event.executed, Event.comes, hloop]
  · simp [noted, Event.executed, Event.comes, hreach]

/-! ## The innermost frame -/

/-- The given loop is the innermost one: it has asked, and the innermost frame holds the lines
executed in it.  Outside every loop there is no frame. -/
structure Innermost (loop? : Option Nat) (earlier : List Event) (state : Exploration) : Prop where
  frame : state.frames.head? = loop?.map (noted earlier)
  asked : ∀ loop, loop? = some loop →
    ∃ event ∈ earlier, event.kind = .asks ∧ event.site.position = loop

namespace Innermost

theorem of_frames (h : Innermost loop? earlier state) (hframes : other.frames = state.frames) :
    Innermost loop? earlier other where
  frame := by
    rw [hframes]
    exact h.frame
  asked := h.asked

/-- Events that leave nothing in the loop do not change what its frame should hold. -/
theorem append (h : Innermost loop? earlier state)
    (hlog : ∀ loop, loop? = some loop → noted log loop = []) :
    Innermost loop? (earlier ++ log) state where
  frame := by
    cases loop? with
    | none => exact h.frame
    | some loop =>
        rw [Option.map_some, noted_append, hlog loop rfl, List.nil_append]
        exact h.frame
  asked loop hloop := by
    obtain ⟨event, hevent, hasks⟩ := h.asked loop hloop
    exact ⟨event, List.mem_append_left _ hevent, hasks⟩

theorem skip (h : Innermost site.loop? earlier state)
    (hreach : state.reach site.stmt.line = none) :
    Innermost site.loop? (earlier ++ [⟨.comes, site, state⟩]) state := by
  refine h.append fun loop _ => ?_
  rw [noted_comes, hreach, if_neg (by simp)]

/-- A statement that is executed leaves its line in the innermost frame. -/
theorem reach (h : Innermost site.loop? earlier state)
    (hreach : state.reach site.stmt.line = some reached) :
    Innermost site.loop? (earlier ++ [⟨.comes, site, state⟩]) reached where
  frame := by
    have hframe := h.frame
    rw [eq_of_reach hreach]
    show (noteLine site.stmt.line state.frames).head? = _
    cases hloop : site.loop? with
    | none =>
        rw [hloop, Option.map_none, List.head?_eq_none_iff] at hframe
        rw [hframe, noteLine, List.head?_nil, Option.map_none]
    | some loop =>
        rw [hloop, Option.map_some, List.head?_eq_some_iff] at hframe
        obtain ⟨outer, hframes⟩ := hframe
        rw [hframes, noteLine, List.head?_cons, Option.map_some, noted_append, noted_comes, hreach,
          hloop, if_pos ⟨rfl, rfl⟩, List.singleton_append]
  asked loop hloop := by
    obtain ⟨event, hevent, hasks⟩ := h.asked loop hloop
    exact ⟨event, List.mem_append_left _ hevent, hasks⟩

end Innermost

/-- At each of the events, which come after the earlier ones, the loop around the statement is the
innermost one. -/
def Agree : List Event → List Event → Prop
  | _, [] => True
  | earlier, event :: rest =>
      Innermost event.site.loop? earlier event.state ∧ Agree (earlier ++ [event]) rest

theorem agree_append (earlier log log' : List Event) :
    Agree earlier (log ++ log') ↔ Agree earlier log ∧ Agree (earlier ++ log) log' := by
  induction log generalizing earlier with
  | nil => simp [Agree]
  | cons event rest ih =>
      rw [List.cons_append, Agree, Agree, ih, and_assoc, List.append_assoc, List.singleton_append]

/-! ## Following the exploration -/

/-- The given loop, and those in which the earlier events are, stand before the position. -/
structure Before (loop? : Option Nat) (position : Nat) (earlier : List Event) : Prop where
  around : ∀ loop, loop? = some loop → loop < position
  events : ∀ event ∈ earlier, ∀ loop, event.site.loop? = some loop → loop < position

namespace Before

theorem mono (h : Before loop? start earlier) (hle : start ≤ stop) : Before loop? stop earlier where
  around loop hloop := Nat.lt_of_lt_of_le (h.around loop hloop) hle
  events event hevent loop hloop := Nat.lt_of_lt_of_le (h.events event hevent loop hloop) hle

theorem concat (h : Before loop? start earlier) {event : Event} (hloop : event.site.loop? = loop?) :
    Before loop? start (earlier ++ [event]) where
  around := h.around
  events := by
    refine List.forall_mem_append.mpr ⟨h.events, List.forall_mem_singleton.mpr ?_⟩
    rw [hloop]
    exact h.around

end Before

theorem frames_takeNegation (tracing : Bool) (test : Term) (position : Nat) (state : Exploration) :
    (state.takeNegation tracing test position).frames = state.frames := by
  cases tracing <;> rfl

/-- Along the events the innermost loop is the one around the statement, if the given loop is the
innermost one at the start, and it is at the end; the other frames stay.  The events are in the
given loop or in loops that do not stand before the start. -/
structure Follows (loop? : Option Nat) (start stop : Nat) (before : Exploration) (log : List Event)
    (after : Exploration) : Prop where
  le : start ≤ stop
  outer : after.frames.tail = before.frames.tail
  loops : ∀ event ∈ log, event.site.loop? = loop? ∨
    ∃ loop, event.site.loop? = some loop ∧ start ≤ loop
  agree : ∀ earlier, Before loop? start earlier → Innermost loop? earlier before →
    Agree earlier log ∧ Before loop? stop (earlier ++ log) ∧ Innermost loop? (earlier ++ log) after

namespace Follows

variable {first second third explored : Exploration} {test : Term}

theorem nil (loop? : Option Nat) (position : Nat) (state : Exploration) :
    Follows loop? position position state [] state := by
  refine ⟨Nat.le_refl _, rfl, by simp, fun earlier hbefore hinnermost => ⟨trivial, ?_⟩⟩
  rw [List.append_nil]
  exact ⟨hbefore, hinnermost⟩

theorem append (h : Follows loop? start middle first log second)
    (h' : Follows loop? middle stop second log' third) :
    Follows loop? start stop first (log ++ log') third := by
  refine ⟨Nat.le_trans h.le h'.le, h'.outer.trans h.outer,
    List.forall_mem_append.mpr ⟨h.loops, fun event hevent => ?_⟩,
    fun earlier hbefore hinnermost => ?_⟩
  · refine (h'.loops event hevent).imp_right ?_
    rintro ⟨loop, hloop, hle⟩
    exact ⟨loop, hloop, Nat.le_trans h.le hle⟩
  · obtain ⟨hagree, hmiddle, hsecond⟩ := h.agree earlier hbefore hinnermost
    obtain ⟨hagree', hstop, hthird⟩ := h'.agree (earlier ++ log) hmiddle hsecond
    rw [agree_append, ← List.append_assoc]
    exact ⟨⟨hagree, hagree'⟩, hstop, hthird⟩

theorem of_frames (h : Follows loop? start stop first log second)
    (hbefore : other.frames = first.frames) (hafter : third.frames = second.frames) :
    Follows loop? start stop other log third := by
  refine ⟨h.le, ?_, h.loops, fun earlier hearlier hinnermost => ?_⟩
  · rw [hafter, hbefore]
    exact h.outer
  · obtain ⟨hagree, hstop, hsecond⟩ := h.agree earlier hearlier (hinnermost.of_frames hbefore.symm)
    exact ⟨hagree, hstop, hsecond.of_frames hafter⟩

theorem skip (site : Site) (hreach : state.reach site.stmt.line = none) (hle : start ≤ stop) :
    Follows site.loop? start stop state [⟨.comes, site, state⟩] state :=
  ⟨hle, rfl, List.forall_mem_singleton.mpr (.inl rfl), fun _ hbefore hinnermost =>
    ⟨⟨hinnermost, trivial⟩, (hbefore.concat rfl).mono hle, hinnermost.skip hreach⟩⟩

theorem reach (site : Site) (hreach : state.reach site.stmt.line = some reached)
    (hle : start ≤ stop) :
    Follows site.loop? start stop state [⟨.comes, site, state⟩] reached := by
  refine ⟨hle, ?_, List.forall_mem_singleton.mpr (.inl rfl), fun _ hbefore hinnermost =>
    ⟨⟨hinnermost, trivial⟩, (hbefore.concat rfl).mono hle, hinnermost.reach hreach⟩⟩
  rw [eq_of_reach hreach]
  show (noteLine site.stmt.line state.frames).tail = state.frames.tail
  cases state.frames <;> rfl

theorem asks (site : Site) (position : Nat) (hframes : other.frames = state.frames) :
    Follows site.loop? position position state [⟨.asks, site, state⟩] other := by
  refine ⟨Nat.le_refl _, by rw [hframes], List.forall_mem_singleton.mpr (.inl rfl),
    fun earlier hbefore hinnermost => ⟨⟨hinnermost, trivial⟩, hbefore.concat rfl, ?_⟩⟩
  exact (hinnermost.append fun loop _ => noted_asks site state loop).of_frames hframes

/-- The body of a loop starts with an empty frame.  What happens in it leaves nothing in the frame
outside, because no event in it is in the loop outside. -/
theorem loopBody (site : Site) (hfirst : first.frames = [] :: state.frames)
    (hbody : Follows (some site.position) (site.position + 1) stop first log explored) :
    Follows site.loop? site.position stop state (⟨.asks, site, state⟩ :: log)
      explored.leaveLoop := by
  have houter : explored.leaveLoop.frames = state.frames := by
    show explored.frames.tail = state.frames
    rw [hbody.outer, hfirst, List.tail_cons]
  have hloops : ∀ event ∈ log, ∃ loop, event.site.loop? = some loop ∧ site.position ≤ loop := by
    intro event hevent
    rcases hbody.loops event hevent with hsame | ⟨loop, hloop, hle⟩
    · exact ⟨site.position, hsame, Nat.le_refl _⟩
    · exact ⟨loop, hloop, Nat.le_of_succ_le hle⟩
  refine ⟨Nat.le_of_succ_le hbody.le, by rw [houter], List.forall_mem_cons.mpr ⟨.inl rfl,
    fun event hevent => .inr (hloops event hevent)⟩, fun earlier hbefore hinnermost => ?_⟩
  have hasked : Before site.loop? site.position (earlier ++ [⟨.asks, site, state⟩]) :=
    hbefore.concat rfl
  have hinside : Before (some site.position) (site.position + 1)
      (earlier ++ [⟨.asks, site, state⟩]) := by
    refine ⟨fun loop hloop => ?_, (hasked.mono (Nat.le_succ _)).events⟩
    cases hloop
    exact Nat.lt_succ_self _
  -- the loops of the earlier events stand before this one, so that its frame should be empty
  have hempty : noted (earlier ++ [⟨.asks, site, state⟩]) site.position = [] :=
    noted_eq_nil fun event hevent hloop =>
      Nat.lt_irrefl _ (hasked.events event hevent site.position hloop)
  have hentered : Innermost (some site.position) (earlier ++ [⟨.asks, site, state⟩]) first := by
    refine ⟨?_, fun loop hloop => ?_⟩
    · rw [hfirst, List.head?_cons, Option.map_some, hempty]
    · cases hloop
      exact ⟨⟨.asks, site, state⟩, List.mem_concat_self, rfl, rfl⟩
  obtain ⟨hagree, hstop, -⟩ := hbody.agree _ hinside hentered
  rw [Agree, List.append_cons earlier _ log]
  refine ⟨⟨hinnermost, hagree⟩, ⟨fun loop hloop => ?_, hstop.events⟩, ?_⟩
  · have hlt := hbefore.around loop hloop
    have hle := hbody.le
    omega
  · have hoff : ∀ loop, site.loop? = some loop → noted log loop = [] := by
      intro loop hloop
      refine noted_eq_nil fun event hevent hsame => ?_
      obtain ⟨inner, hinner, hle⟩ := hloops event hevent
      have hlt := hbefore.around loop hloop
      rw [hsame, Option.some.injEq] at hinner
      omega
    have hstill := hinnermost.append fun loop _ => noted_asks site state loop
    exact (hstill.append hoff).of_frames houter

/-- A conditional has no frame, so its branches are in the frame around it. -/
theorem ifTrue (site : Site) (hreach : state.reach site.stmt.line = some reached)
    (hbody : Follows site.loop? (site.position + 1) stop
      (reached.enterTrue tracing site.stmt.line test) log explored) :
    Follows site.loop? site.position stop state
      (⟨.comes, site, state⟩ :: (log ++ [⟨.asks, site, explored⟩]))
      ((explored.check solver site.stmt.line).backTo reached) := by
  have hentered : Follows site.loop? (site.position + 1) stop reached log explored :=
    hbody.of_frames (frames_enterConditional tracing site.stmt.line test reached).symm rfl
  exact (reach site hreach (Nat.le_succ _)).append (hentered.append
    (asks site stop (frames_check solver site.stmt.line explored)))

theorem ifElse (site : Site) (hreach : state.reach site.stmt.line = some reached)
    (hbody : Follows site.loop? (site.position + 1) middle
      (reached.enterTrue tracing site.stmt.line test) log explored)
    (hnegated : other.frames = explored.frames)
    (horelse : Follows site.loop? middle stop (other.check solver site.stmt.line) log' third) :
    Follows site.loop? site.position stop state
      (⟨.comes, site, state⟩ :: (log ++ ⟨.asks, site, explored⟩ :: ⟨.asks, site, other⟩ :: log'))
      (third.backTo reached) := by
  have hentered : Follows site.loop? (site.position + 1) middle reached log explored :=
    hbody.of_frames (frames_enterConditional tracing site.stmt.line test reached).symm rfl
  have hasked : Follows site.loop? middle stop other (⟨.asks, site, other⟩ :: log')
      (third.backTo reached) :=
    (asks site middle (frames_check solver site.stmt.line other)).append (horelse.of_frames rfl rfl)
  exact (reach site hreach (Nat.le_succ _)).append (hentered.append
    ((asks site middle hnegated).append hasked))

theorem loop (site : Site) (hreach : state.reach site.stmt.line = some reached)
    (hbody : Follows (some site.position) (site.position + 1) stop
      (reached.enterBody solver site.stmt.line test) log explored) :
    Follows site.loop? site.position stop state
      (⟨.comes, site, state⟩ :: ⟨.asks, site, reached.takeLoop test⟩ :: log)
      (explored.leaveLoop.backTo reached) := by
  have htaken : Follows site.loop? site.position stop (reached.takeLoop test)
      (⟨.asks, site, reached.takeLoop test⟩ :: log) explored.leaveLoop :=
    loopBody site (frames_enterBody solver site.stmt.line test reached) hbody
  exact (reach site hreach (Nat.le_refl _)).append (htaken.of_frames rfl rfl)

theorem logged (solver : Backend) (tracing : Bool) : Logged solver tracing Follows where
  nil loop? position state := nil loop? position state
  append h h' := h.append h'
  skip site hreach := (skip site hreach (by omega)).of_frames rfl rfl
  single site hreach h := by
    refine (reach site hreach (by omega)).of_frames rfl ?_
    rw [frames_settle, frames_perform h]
  ifTrue site _ hreach _ _ hbody := ifTrue site hreach hbody
  ifElse site _ hreach _ _ hbody horelse := by
    refine ifElse site hreach hbody ?_ horelse
    rw [frames_takeNegation]
    exact frames_check solver site.stmt.line _
  loop site _ hreach _ _ hbody := loop site hreach hbody

end Follows

/-! ## The check of an unrolling -/

/-- The checks that the statement at a position makes. -/
def checksAt (position : Nat) (log : List Event) : List Event :=
  log.filter fun event => event.kind = .asks && event.site.position = position

theorem checksAt_append (position : Nat) (log log' : List Event) :
    checksAt position (log ++ log') = checksAt position log ++ checksAt position log' :=
  List.filter_append log log'

theorem checksAt_eq_nil {position : Nat} (h : ∀ event ∈ log, event.site.position ≠ position) :
    checksAt position log = [] := by
  rw [checksAt, List.filter_eq_nil_iff]
  intro event hevent
  simp [h event hevent]

theorem checksAt_cons_of_ne {position : Nat} {event : Event} (h : event.site.position ≠ position) :
    checksAt position (event :: log) = checksAt position log := by
  rw [checksAt, List.filter_cons_of_neg (by simp [h])]
  rfl

end Exploration

theorem Stmt.branches_of_isLoop {stmt : Stmt} (h : stmt.isLoop = true) : stmt.branches = true := by
  cases stmt with
  | loop => rfl
  | _ => cases h

/-- Whether a loop is unrolled when the exploration comes to it. -/
def Event.unrolls (solver : Backend) (tracing : Bool) (event : Event) : Bool :=
  (event.execution? solver tracing).any fun execution =>
    execution.stmt.isLoop && execution.failure.isNone

namespace Exploration

variable {solver : Backend} {tracing : Bool} {loop? : Option Nat} {start middle stop : Nat}
  {log log' : List Event} {state other reached explored : Exploration} {site : Site}

theorem unrolls_of_skip (hreach : state.reach site.stmt.line = none) :
    Event.unrolls solver tracing ⟨.comes, site, state⟩ = false := by
  simp [Event.unrolls, Event.execution?, hreach]

theorem unrolls_of_reach (hreach : state.reach site.stmt.line = some reached) :
    Event.unrolls solver tracing ⟨.comes, site, state⟩ =
      (site.stmt.isLoop && (perform solver tracing site.stmt reached).2.isNone) := by
  simp [Event.unrolls, Event.execution?, hreach]

theorem isLoop_of_unrolls {event : Event} (h : event.unrolls solver tracing = true) :
    event.site.stmt.isLoop = true := by
  obtain ⟨kind, site, state⟩ := event
  cases kind with
  | asks => cases h
  | comes =>
      cases hreach : state.reach site.stmt.line with
      | none =>
          rw [unrolls_of_skip hreach] at h
          cases h
      | some reached =>
          rw [unrolls_of_reach hreach] at h
          exact (Bool.and_eq_true_iff.mp h).1

/-- The events are those of statements between two positions, and each unrolling makes one check. -/
structure ChecksOnce (solver : Backend) (tracing : Bool) (start stop : Nat) (log : List Event) :
    Prop where
  le : start ≤ stop
  positions : ∀ event ∈ log, start ≤ event.site.position ∧ event.site.position < stop
  once : ∀ event ∈ log, event.unrolls solver tracing = true →
    ∃ state, checksAt event.site.position log = [⟨.asks, event.site, state⟩]

namespace ChecksOnce

theorem append (h : ChecksOnce solver tracing start middle log)
    (h' : ChecksOnce solver tracing middle stop log') :
    ChecksOnce solver tracing start stop (log ++ log') := by
  have hstart := h.le
  have hstop := h'.le
  refine ⟨by omega, List.forall_mem_append.mpr ⟨fun event hevent => ?_, fun event hevent => ?_⟩,
    List.forall_mem_append.mpr ⟨fun event hevent hunrolls => ?_, fun event hevent hunrolls => ?_⟩⟩
  · have hposition := h.positions event hevent
    omega
  · have hposition := h'.positions event hevent
    omega
  · have hposition := h.positions event hevent
    have hnone : checksAt event.site.position log' = [] := checksAt_eq_nil fun other hother => by
      have hbehind := h'.positions other hother
      omega
    obtain ⟨state, hchecks⟩ := h.once event hevent hunrolls
    exact ⟨state, by rw [checksAt_append, hchecks, hnone, List.append_nil]⟩
  · have hposition := h'.positions event hevent
    have hnone : checksAt event.site.position log = [] := checksAt_eq_nil fun other hother => by
      have hbefore := h.positions other hother
      omega
    obtain ⟨state, hchecks⟩ := h'.once event hevent hunrolls
    exact ⟨state, by rw [checksAt_append, hchecks, hnone, List.nil_append]⟩

/-- A statement that is not unrolled, with nothing inside it. -/
theorem singleton (hunrolls : Event.unrolls solver tracing ⟨.comes, site, state⟩ = false)
    (count : Nat) :
    ChecksOnce solver tracing site.position (site.position + 1 + count)
      [⟨.comes, site, state⟩] := by
  refine ⟨by omega, List.forall_mem_singleton.mpr ?_, List.forall_mem_singleton.mpr fun h => ?_⟩
  · show site.position ≤ site.position ∧ site.position < site.position + 1 + count
    omega
  · rw [hunrolls] at h
    cases h

/-- The events of a statement around those inside it make no checks for these. -/
theorem enclose (h : ChecksOnce solver tracing (site.position + 1) stop log)
    (hlog : ∀ event ∈ log', event.site = site ∨ event ∈ log)
    (hchecks : ∀ position, position ≠ site.position →
      checksAt position log' = checksAt position log)
    (hown : ∀ event ∈ log', event.site = site → event.unrolls solver tracing = true →
      ∃ state, checksAt site.position log' = [⟨.asks, site, state⟩]) :
    ChecksOnce solver tracing site.position stop log' := by
  have hle := h.le
  refine ⟨by omega, fun event hevent => ?_, fun event hevent hunrolls => ?_⟩
  · rcases hlog event hevent with hsite | hinside
    · rw [hsite]
      omega
    · have hposition := h.positions event hinside
      omega
  · rcases hlog event hevent with hsite | hinside
    · rw [hsite]
      exact hown event hevent hsite hunrolls
    · have hposition := h.positions event hinside
      rw [hchecks event.site.position (by omega)]
      exact h.once event hinside hunrolls

/-- A conditional is not unrolled. -/
theorem conditional {condition : Expr} {body orelse : List Stmt}
    (hsite : site.stmt = .conditional site.stmt.line condition body orelse)
    (h : ChecksOnce solver tracing (site.position + 1) stop log)
    (hlog : ∀ event ∈ log', event.site = site ∨ event ∈ log)
    (hchecks : ∀ position, position ≠ site.position →
      checksAt position log' = checksAt position log) :
    ChecksOnce solver tracing site.position stop log' := by
  refine h.enclose hlog hchecks fun event _ hevent hunrolls => ?_
  have hloop := isLoop_of_unrolls hunrolls
  rw [hevent, hsite] at hloop
  cases hloop

theorem loop (h : ChecksOnce solver tracing (site.position + 1) stop log) (asked : Exploration) :
    ChecksOnce solver tracing site.position stop
      (⟨.comes, site, state⟩ :: ⟨.asks, site, asked⟩ :: log) := by
  refine h.enclose (List.forall_mem_cons.mpr ⟨.inl rfl, List.forall_mem_cons.mpr ⟨.inl rfl,
    fun _ hevent => .inr hevent⟩⟩) (fun position hposition => ?_) fun _ _ _ _ => ⟨asked, ?_⟩
  · rw [checksAt_cons_of_ne hposition.symm, checksAt_cons_of_ne hposition.symm]
  · have hinside : checksAt site.position log = [] := checksAt_eq_nil fun other hother => by
      have hposition := h.positions other hother
      omega
    rw [checksAt] at hinside ⊢
    simp [hinside]

theorem logged (solver : Backend) (tracing : Bool) :
    Logged solver tracing fun _ start stop _ log _ => ChecksOnce solver tracing start stop log where
  nil _ _ _ := ⟨Nat.le_refl _, by simp, by simp⟩
  append h h' := h.append h'
  skip site hreach := singleton (unrolls_of_skip hreach) _
  single site hreach h := by
    refine singleton ?_ _
    rw [unrolls_of_reach hreach, Bool.and_eq_false_iff]
    cases hloop : site.stmt.isLoop with
    | false => exact .inl rfl
    | true =>
        have hfails := h (Stmt.branches_of_isLoop hloop)
        rw [Option.isNone_eq_false_iff]
        exact .inr hfails
  ifTrue site hsite _ _ _ hbody := by
    refine hbody.conditional hsite (List.forall_mem_cons.mpr ⟨.inl rfl,
      List.forall_mem_append.mpr ⟨fun _ hevent => .inr hevent,
        List.forall_mem_singleton.mpr (.inl rfl)⟩⟩) fun position hposition => ?_
    rw [checksAt_cons_of_ne hposition.symm, checksAt_append, checksAt_cons_of_ne hposition.symm]
    exact List.append_nil _
  ifElse site hsite _ _ _ hbody horelse := by
    refine (hbody.append horelse).conditional hsite (List.forall_mem_cons.mpr ⟨.inl rfl,
      List.forall_mem_append.mpr ⟨fun _ hevent => .inr (List.mem_append_left _ hevent),
        List.forall_mem_cons.mpr ⟨.inl rfl, List.forall_mem_cons.mpr ⟨.inl rfl,
          fun _ hevent => .inr (List.mem_append_right _ hevent)⟩⟩⟩⟩) fun position hposition => ?_
    rw [checksAt_cons_of_ne hposition.symm, checksAt_append, checksAt_append,
      checksAt_cons_of_ne hposition.symm, checksAt_cons_of_ne hposition.symm]
  loop site _ _ _ _ hbody := hbody.loop _

end ChecksOnce

/-! ## What is executed in a loop -/

theorem isSome_reach_iff {line : Line} {frame : List Line} {outer : List (List Line)}
    (h : state.frames = frame :: outer) :
    (state.reach line).isSome = true ↔ line ∉ frame := by
  unfold reach
  rw [h]
  dsimp only
  split <;> simp [*]

theorem isSome_reach_of_nil (h : state.frames = []) (line : Line) :
    (state.reach line).isSome = true := by
  unfold reach
  rw [h]
  rfl

theorem Agree.innermost {earlier front behind : List Event} {event : Event}
    (h : Agree earlier (front ++ event :: behind)) :
    Innermost event.site.loop? (earlier ++ front) event.state :=
  ((agree_append earlier front (event :: behind)).mp h).2.1

theorem Innermost.executed_of_none {event : Event}
    (h : Innermost event.site.loop? log event.state) (hcomes : event.comes = true)
    (hloop : event.site.loop? = none) : event.executed = true := by
  have hframe := h.frame
  rw [hloop, Option.map_none, List.head?_eq_none_iff] at hframe
  rw [Event.executed, hcomes, isSome_reach_of_nil hframe]
  rfl

/-- In a loop a statement is executed unless its line was executed before. -/
theorem Innermost.executed_iff {event : Event} {loop : Nat}
    (h : Innermost event.site.loop? log event.state) (hcomes : event.comes = true)
    (hloop : event.site.loop? = some loop) :
    event.executed = true ↔ event.site.stmt.line ∉ noted log loop := by
  have hframe := h.frame
  rw [hloop, Option.map_some, List.head?_eq_some_iff] at hframe
  obtain ⟨outer, hframes⟩ := hframe
  rw [Event.executed, hcomes, Bool.true_and, isSome_reach_iff hframes]

end Exploration

/-- Whether the exploration comes to a statement in the given loop. -/
def Event.comesIn (loop : Nat) (event : Event) : Bool :=
  event.comes && event.site.loop? = some loop

namespace Exploration

theorem mem_noted {log : List Event} {loop : Nat} {line : Line} :
    line ∈ noted log loop ↔ ∃ event ∈ log, event.executed = true ∧
      event.site.loop? = some loop ∧ event.site.stmt.line = line := by
  simp [noted, and_assoc]

/-- A line that the exploration came to in a loop was executed in it: where it is left out, it was
executed before. -/
theorem Agree.mem_noted_iff {log : List Event} (h : Agree [] log) {loop : Nat} {line : Line} :
    line ∈ noted log loop ↔
      ∃ event ∈ log, event.comesIn loop = true ∧ event.site.stmt.line = line := by
  rw [mem_noted]
  constructor
  · rintro ⟨event, hevent, hexecuted, hloop, hline⟩
    have hcomes : event.comes = true := (Bool.and_eq_true_iff.mp hexecuted).1
    exact ⟨event, hevent, by simp [Event.comesIn, hcomes, hloop], hline⟩
  · rintro ⟨event, hevent, hcomesIn, hline⟩
    have hboth := Bool.and_eq_true_iff.mp hcomesIn
    have hloop : event.site.loop? = some loop := of_decide_eq_true hboth.2
    by_cases hexecuted : event.executed = true
    · exact ⟨event, hevent, hexecuted, hloop, hline⟩
    · obtain ⟨front, behind, rfl⟩ := List.append_of_mem hevent
      rw [h.innermost.executed_iff hboth.1 hloop, Decidable.not_not, hline, List.nil_append,
        mem_noted] at hexecuted
      obtain ⟨first, hfirst, hlines⟩ := hexecuted
      exact ⟨first, List.mem_append_left _ hfirst, hlines⟩

/-- No line is executed twice in a loop. -/
theorem Agree.nodup_noted {log : List Event} (h : Agree [] log) (loop : Nat) :
    (noted log loop).Nodup := by
  induction log using List.reverseRecOn with
  | nil => exact List.nodup_nil
  | append_singleton log event ih =>
      have hrest := ih ((agree_append [] log [event]).mp h).1
      rw [noted_append]
      by_cases hnoted : event.executed = true ∧ event.site.loop? = some loop
      · have hline := (h.innermost.executed_iff (Bool.and_eq_true_iff.mp hnoted.1).1 hnoted.2).mp
          hnoted.1
        have hone : noted [event] loop = [event.site.stmt.line] := by simp [noted, hnoted]
        rw [hone, List.singleton_append, List.nodup_cons]
        exact ⟨hline, hrest⟩
      · have hnone : noted [event] loop = [] := by
          rw [List.eq_nil_iff_forall_not_mem]
          intro line hline
          obtain ⟨other, hother, hexecuted, hloop, -⟩ := mem_noted.mp hline
          rw [List.mem_singleton.mp hother] at hexecuted hloop
          exact hnoted ⟨hexecuted, hloop⟩
        rw [hnone, List.nil_append]
        exact hrest

theorem frames_bindParams (params : List Param) (state : Exploration) :
    (state.bindParams params).frames = state.frames :=
  view_bindParams frames (fun state error => frames_settle 0 (state, some error))
    (fun _ _ _ _ => rfl) params state

/-- At every event of an exploration that starts outside of loops, the loop around the statement is
the innermost one. -/
theorem agree_events (solver : Backend) (tracing : Bool) (stmts : List Stmt)
    {state : Exploration} (h : state.frames = []) :
    Agree [] (events solver tracing stmts none 0 state) := by
  have hbefore : Before none 0 [] := ⟨by simp, by simp⟩
  have hinnermost : Innermost none [] state := ⟨by rw [h]; rfl, by simp⟩
  exact (((Follows.logged solver tracing).explore stmts none 0 state).agree [] hbefore hinnermost).1

theorem execute_of_skipped {event : Event} (h : event.skipped = true) :
    execute solver tracing event.site.stmt event.state = event.state.skip := by
  have hreach : event.state.reach event.site.stmt.line = none :=
    Option.isNone_iff_eq_none.mp (Bool.and_eq_true_iff.mp h).2
  rw [execute_eq_step, step_of_reach_eq_none hreach]

end Exploration

/-- **Every loop is unrolled once, and in it every line is executed once.**  The events are what the
exploration does: the statements come to are some of the statements in their loops, each once; those
executed are the executions, those left out are as many as the report says, and the questions and
their records are those of the checks.

At every event the innermost frame holds the lines executed before in the innermost loop around the
statement, and this loop has asked before.  In a loop a statement is executed exactly if the
exploration has not come to its line in this loop before, so that the lines executed are distinct;
outside of loops every statement is executed.  A statement that is left out adds one to the count of
these and changes nothing else.  Each unrolling makes one check, that of its own statement. -/
theorem Settings.loops_unroll_once (settings : Settings) (solver : Backend) (function : Function) :
    let start := (Exploration.start (settings.maxPathConstraints.map UInt64.toNat)).bindParams
      function.params
    let tracing := settings.traceBranches
    let log := settings.events solver function
    let report := settings.analyzeWith solver function
    ((Exploration.visited log).Sublist (Stmt.sites function.body none 0) ∧
      ((Exploration.visited log).map Site.position).Nodup ∧
      Exploration.executions solver tracing function.body 0 start =
        log.filterMap (Event.execution? solver tracing) ∧
      report.stats.skippedStatements = log.countP Event.skipped ∧
      (settings.explore solver function).asked = log.filterMap Event.question? ∧
      report.testCases = log.filterMap (Event.testCase? solver) ∧
      report.violations = log.filterMap (Event.violation? solver) ∧
      report.diagnostics.filter (fun diagnostic => diagnostic.kind.isAnswer) =
        log.filterMap (Event.diagnostic? solver)) ∧
    (∀ front event behind, log = front ++ event :: behind →
      event.state.frames.head? = event.site.loop?.map (Exploration.noted front) ∧
      ∀ loop, event.site.loop? = some loop →
        (∃ check ∈ front, check.kind = .asks ∧ check.site.position = loop) ∧
        (event.comes = true → (event.executed = true ↔
          ∀ other ∈ front, other.comesIn loop = true →
            other.site.stmt.line ≠ event.site.stmt.line))) ∧
    (∀ loop, (Exploration.noted log loop).Nodup) ∧
    (∀ event ∈ log, event.comes = true → event.site.loop? = none → event.executed = true) ∧
    (∀ event ∈ log, event.skipped = true →
      Exploration.execute solver tracing event.site.stmt event.state =
        { event.state with stats := { event.state.stats with
            skippedStatements := event.state.stats.skippedStatements + 1 } }) ∧
    ∀ event ∈ log, event.unrolls solver tracing = true →
      ∃ state, Exploration.checksAt event.site.position log = [⟨.asks, event.site, state⟩] := by
  intro start tracing log report
  have hframes : start.frames = [] := Exploration.frames_bindParams function.params _
  have hagree : Exploration.Agree [] log :=
    Exploration.agree_events solver tracing function.body hframes
  have hledger := settings.ledger_explore solver function
  have hskipped : report.stats.skippedStatements = 0 + log.countP Event.skipped :=
    congrArg Exploration.Ledger.skipped hledger
  rw [Nat.zero_add] at hskipped
  have hinnermost : ∀ event ∈ log, ∃ front,
      Exploration.Innermost event.site.loop? front event.state := by
    intro event hevent
    obtain ⟨front, behind, hlog⟩ := List.append_of_mem hevent
    exact ⟨_, (hlog ▸ hagree).innermost⟩
  refine ⟨⟨Exploration.sublist_events solver tracing function.body none 0 start,
      Exploration.nodup_visited solver tracing function.body none 0 start, rfl, hskipped,
      congrArg Exploration.Ledger.asked hledger, congrArg Exploration.Ledger.testCases hledger,
      congrArg Exploration.Ledger.violations hledger, congrArg Exploration.Ledger.answers hledger⟩,
    fun front event behind hlog => ?_, hagree.nodup_noted, fun event hevent hcomes hloop => ?_,
    fun event _ hevent => Exploration.execute_of_skipped hevent,
    ((Exploration.ChecksOnce.logged solver tracing).explore function.body none 0 start).once⟩
  · rw [hlog] at hagree
    have hevent : Exploration.Innermost event.site.loop? front event.state := hagree.innermost
    refine ⟨hevent.frame, fun loop hloop => ⟨hevent.asked loop hloop, fun hcomes => ?_⟩⟩
    have hfront : Exploration.Agree [] front := ((Exploration.agree_append [] front _).mp hagree).1
    rw [hevent.executed_iff hcomes hloop, hfront.mem_noted_iff]
    simp only [not_exists, not_and, ne_eq]
  · obtain ⟨front, hevent⟩ := hinnermost event hevent
    exact hevent.executed_of_none hcomes hloop

/-- In a loop on line `1`: line `2` is left out in the conditional on line `3`, which has no frame
of its own, and executed in the loop on line `4`, which has one. -/
example :
    let yes : Expr := .literal (.bool true)
    let body : List Stmt :=
      [.loop 1 yes [.other 2 none, .conditional 3 yes [.other 2 none] [],
        .loop 4 yes [.other 2 none], .other 4 none]]
    let log := Exploration.events (fun _ _ => .timeout) false body none 0 (.start none)
    ((log.filter Event.comes).map fun event =>
        (event.site.stmt.line, event.site.loop?, event.executed)) =
      [(1, none, true), (2, some 0, true), (3, some 0, true), (2, some 0, false),
        (4, some 0, true), (2, some 4, true), (4, some 0, false)] := by
  decide +kernel

end BranchWitness
