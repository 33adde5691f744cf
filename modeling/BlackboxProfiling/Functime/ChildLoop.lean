import BlackboxProfiling.Functime.ChildEvents

/-!
The loop of `child_exit_handler` against the status word. `waitpid` fills the word
only when it returns the pid of a child; when no child is left it fails with `ECHILD`,
and the loop goes on to look at whatever the word holds from before.
-/

namespace BlackboxProfiling.Functime

open EventRun

inductive Outcome where
  | stopped (serial : Nat) (arrival : Arrival)
  | exited
  | signaled
  | noChange
  | noChild (surroundings : Surroundings)
  | error

def Outcome.isNoChild : Outcome → Bool
  | .noChild _surroundings => true
  | _ => false

def Outcome.ends : Outcome → Bool
  | .exited | .noChange | .error => true
  | .stopped _serial _arrival | .signaled | .noChild _surroundings => false

structure ChildLoop where
  wstat : Wstat
  tracer : Tracer

/-- The loop is left for good with no tracer when the process exits. -/
inductive Next where
  | again (loop : ChildLoop)
  | left (tracer : Option Tracer)

def Next.loop : Next → Option ChildLoop
  | .again loop => some loop
  | .left _tracer => none

structure Iteration where
  filled : Bool
  inspected : Bool
  called : Bool
  next : Next

/-- The branches on the status word. `handled` is what `handle_trace_event` would
leave, if it is called. -/
def inspectStatus (filled : Bool) (loop : ChildLoop) (handled : Option Tracer) : Iteration :=
  match loop.wstat with
  | .stopped =>
      { filled := filled
        inspected := true
        called := true
        next :=
          match handled with
          | none => .left none
          | some tracer => .again { loop with tracer := tracer } }
  | .exited =>
      { filled := filled
        inspected := true
        called := false
        next := .left (some { loop.tracer with done := true }) }
  | .signaled => { filled := filled, inspected := true, called := false, next := .again loop }

def childRound (loop : ChildLoop) : Outcome → Iteration
  | .noChange =>
      { filled := false, inspected := false, called := false, next := .left (some loop.tracer) }
  | .error => { filled := false, inspected := false, called := false, next := .left none }
  | .stopped serial arrival =>
      inspectStatus true { loop with wstat := .stopped } (stopped loop.tracer serial arrival).tracer
  | .exited => inspectStatus true { loop with wstat := .exited } none
  | .signaled => inspectStatus true { loop with wstat := .signaled } none
  | .noChild surroundings =>
      inspectStatus false loop
        (handleTraceEvent loop.tracer lostTracee 0 .none surroundings).tracer

def childStep (loop : ChildLoop) (outcome : Outcome) : Option ChildLoop :=
  (childRound loop outcome).next.loop

/-- The loop as iteration `n` starts; `unset` is what the word holds at first. -/
def childLoopAt (unset : Wstat) (tracer : Tracer) (outcomes : Nat → Outcome) :
    Nat → Option ChildLoop :=
  loopAt childStep ⟨unset, tracer⟩ outcomes

/-- The loop is left after finitely many iterations, and those that look at the word
or call `handle_trace_event` have had it filled. -/
structure EndsOnFreshStatus (unset : Wstat) (tracer : Tracer) (outcomes : Nat → Outcome) : Prop where
  leaves : ∃ n, childLoopAt unset tracer outcomes n = none
  fresh : ∀ n loop, childLoopAt unset tracer outcomes n = some loop →
    (childRound loop (outcomes n)).inspected = true ∨
      (childRound loop (outcomes n)).called = true →
    (childRound loop (outcomes n)).filled = true

def afterOutcome (tracer : Tracer) : Outcome → Option Tracer
  | .stopped serial arrival => (stopped tracer serial arrival).tracer
  | _ => some tracer

def tracerAt (tracer : Tracer) (outcomes : Nat → Outcome) : Nat → Option Tracer :=
  loopAt afterOutcome tracer outcomes

/-- Before any `ECHILD` comes an outcome on which the loop is left, or a stop at which
`handle_trace_event` exits. -/
def LeavesBeforeNoChild (tracer : Tracer) (outcomes : Nat → Outcome) : Prop :=
  ∃ last, (∀ n ≤ last, (outcomes n).isNoChild = false) ∧
    ((outcomes last).ends = true ∨ tracerAt tracer outcomes (last + 1) = none)

private theorem inspectStatus_inspected (filled : Bool) (loop : ChildLoop) (handled : Option Tracer) :
    (inspectStatus filled loop handled).inspected = true := by
  unfold inspectStatus
  split <;> rfl

private theorem inspectStatus_filled (filled : Bool) (loop : ChildLoop) (handled : Option Tracer) :
    (inspectStatus filled loop handled).filled = filled := by
  unfold inspectStatus
  split <;> rfl

private theorem childRound_fresh_iff (loop : ChildLoop) (outcome : Outcome) :
    ((childRound loop outcome).inspected = true ∨ (childRound loop outcome).called = true →
      (childRound loop outcome).filled = true) ↔ outcome.isNoChild = false := by
  cases outcome with
  | noChild surroundings =>
      apply iff_of_false _ (fun child => by cases child)
      intro fresh
      have filled := fresh (Or.inl (inspectStatus_inspected false loop _))
      rw [childRound, inspectStatus_filled] at filled
      cases filled
  | noChange =>
      apply iff_of_true _ rfl
      rintro (looked | called)
      · cases looked
      · cases called
  | error =>
      apply iff_of_true _ rfl
      rintro (looked | called)
      · cases looked
      · cases called
  | stopped serial arrival => exact iff_of_true (fun _looked => rfl) rfl
  | exited => exact iff_of_true (fun _looked => rfl) rfl
  | signaled => exact iff_of_true (fun _looked => rfl) rfl

/-- Up to an `ECHILD` an iteration goes on exactly when its outcome does not end the
loop and the tracer survives, and it goes on with that tracer. -/
theorem childStep_tracer (loop : ChildLoop) (outcome : Outcome)
    (child : outcome.isNoChild = false) :
    (childStep loop outcome).map ChildLoop.tracer =
      if outcome.ends then none else afterOutcome loop.tracer outcome := by
  cases outcome with
  | noChild surroundings => cases child
  | stopped serial arrival =>
      simp only [childStep, childRound, inspectStatus, afterOutcome, Outcome.ends,
        Bool.false_eq_true, if_false]
      cases (stopped loop.tracer serial arrival).tracer <;> rfl
  | noChange => rfl
  | error => rfl
  | exited => rfl
  | signaled => rfl

theorem childLoopAt_tracer (unset : Wstat) (tracer : Tracer) (outcomes : Nat → Outcome) (n : Nat)
    (children : ∀ earlier < n, (outcomes earlier).isNoChild = false) (loop : ChildLoop)
    (running : childLoopAt unset tracer outcomes n = some loop) :
    tracerAt tracer outcomes n = some loop.tracer ∧
      ∀ earlier < n, (outcomes earlier).ends = false := by
  induction n generalizing loop with
  | zero =>
      cases running
      exact ⟨rfl, fun earlier before => absurd before (Nat.not_lt_zero earlier)⟩
  | succ n ih =>
      obtain ⟨before, ran, stepped⟩ := Option.bind_eq_some_iff.mp running
      obtain ⟨same, passed⟩ :=
        ih (fun earlier sooner => children earlier (Nat.lt_succ_of_lt sooner)) before ran
      have left := childStep_tracer before (outcomes n) (children n (Nat.lt_succ_self n))
      rw [stepped, Option.map_some] at left
      cases ends : (outcomes n).ends with
      | true =>
          rw [ends, if_pos rfl] at left
          cases left
      | false =>
          rw [ends, if_neg (by decide)] at left
          constructor
          · rw [tracerAt, loopAt]
            change (tracerAt tracer outcomes n).bind _ = _
            rw [same]
            exact left.symm
          · intro earlier before
            rcases Nat.lt_succ_iff_lt_or_eq.mp before with sooner | rfl
            · exact passed earlier sooner
            · exact ends

/-- The loop ends on fresh status words only exactly when something other than
`ECHILD` ends it first. -/
theorem endsOnFreshStatus_iff (unset : Wstat) (tracer : Tracer) (outcomes : Nat → Outcome) :
    EndsOnFreshStatus unset tracer outcomes ↔ LeavesBeforeNoChild tracer outcomes := by
  constructor
  · rintro ⟨⟨n, left⟩, fresh⟩
    obtain ⟨last, loop, ran, leaves⟩ := loopAt_lastRound _ _ _ n left
    have children : ∀ earlier ≤ last, (outcomes earlier).isNoChild = false := by
      intro earlier before
      obtain ⟨reached, running⟩ := loopAt_earlier _ _ _ last loop ran earlier before
      exact (childRound_fresh_iff reached (outcomes earlier)).mp (fresh earlier reached running)
    refine ⟨last, children, ?_⟩
    obtain ⟨same, _passed⟩ := childLoopAt_tracer unset tracer outcomes last
      (fun earlier before => children earlier (Nat.le_of_lt before)) loop ran
    have after := childStep_tracer loop (outcomes last) (children last (Nat.le_refl last))
    rw [leaves, Option.map_none] at after
    cases ends : (outcomes last).ends with
    | true => exact Or.inl rfl
    | false =>
        right
        rw [ends, if_neg (by decide)] at after
        rw [tracerAt, loopAt]
        change (tracerAt tracer outcomes last).bind _ = _
        rw [same]
        exact after.symm
  · rintro ⟨last, children, ends⟩
    have left : childLoopAt unset tracer outcomes (last + 1) = none := by
      rw [Option.eq_none_iff_forall_ne_some]
      intro loop running
      obtain ⟨same, passed⟩ := childLoopAt_tracer unset tracer outcomes (last + 1)
        (fun earlier before => children earlier (Nat.lt_succ_iff.mp before)) loop running
      rcases ends with ends | exits
      · rw [passed last (Nat.lt_succ_self last)] at ends
        cases ends
      · rw [same] at exits
        cases exits
    refine ⟨⟨last + 1, left⟩, ?_⟩
    intro n loop running
    apply (childRound_fresh_iff loop (outcomes n)).mpr
    apply children
    by_contra beyond
    have gone := loopAt_left _ _ _ (last + 1) left n (Nat.lt_of_not_le beyond)
    rw [childLoopAt, gone] at running
    cases running

def killedTracee : Nat → Outcome
  | 0 => .signaled
  | _ + 1 => .noChild { mapsLines := [], procOpens := true, cycles := 0 }

theorem childLoop_spins_after_kill :
    (∀ n, 1 ≤ n → (killedTracee n).isNoChild = true) ∧
      (∀ n, childLoopAt .stopped sampleTracer killedTracee n ≠ none) ∧
      ¬ EndsOnFreshStatus .stopped sampleTracer killedTracee := by
  have spins (n : Nat) : childLoopAt .stopped sampleTracer killedTracee (n + 1) =
      some ⟨.signaled, sampleTracer⟩ := by
    induction n with
    | zero => rfl
    | succ n ih =>
        rw [childLoopAt, loopAt]
        change (childLoopAt .stopped sampleTracer killedTracee (n + 1)).bind _ = _
        rw [ih]
        rfl
  have runs (n : Nat) : childLoopAt .stopped sampleTracer killedTracee n ≠ none := by
    cases n with
    | zero => exact Option.some_ne_none _
    | succ n =>
        rw [spins n]
        exact Option.some_ne_none _
  refine ⟨?_, runs, ?_⟩
  · intro n later
    obtain ⟨rest, rfl⟩ := Nat.exists_eq_add_of_le' later
    rfl
  · rintro ⟨⟨n, left⟩, _fresh⟩
    exact runs n left

def reportedOutcome (surroundings : Surroundings) (children : List Child) : Outcome :=
  match children with
  | [] => .noChild surroundings
  | first :: others =>
      match waitpid (first :: others) with
      | none => .noChange
      | some child =>
          match child.state with
          | .running => .noChange
          | .stopped arrival => .stopped child.serial arrival
          | .exited => .exited

/-- A round of the handler in a session is an iteration of the loop. -/
theorem handlerRound_childStep (session : Session) (wstat : Wstat) (surroundings : Surroundings)
    (running : session.handler = some wstat) :
    (handlerRound session wstat surroundings).handler =
        (childStep ⟨wstat, session.tracer⟩ (reportedOutcome surroundings session.children)).map
          ChildLoop.wstat ∧
      ∀ loop, childStep ⟨wstat, session.tracer⟩ (reportedOutcome surroundings session.children) =
        some loop → (handlerRound session wstat surroundings).tracer = loop.tracer := by
  cases children : session.children with
  | nil =>
      have lost := handleTraceEvent_lost session.tracer surroundings
      cases wstat <;> simp [handlerRound, children, noChild, reportedOutcome, childStep, childRound,
        inspectStatus, lost, Next.loop, running, returnFromHandler]
  | cons first others =>
      cases reported : waitpid (first :: others) with
      | none =>
          simp [handlerRound, children, reported, reportedOutcome, childStep, childRound, Next.loop,
            returnFromHandler]
      | some child =>
          have changed : child.state.changed = true :=
            List.find?_some (p := fun other : Child => other.state.changed) reported
          cases state : child.state with
          | running =>
              rw [state] at changed
              cases changed
          | exited =>
              simp [handlerRound, children, reported, state, reportedOutcome, childStep, childRound,
                inspectStatus, Next.loop, returnFromHandler]
          | stopped arrival =>
              cases survived : (stopped session.tracer child.serial arrival).tracer <;>
                simp [handlerRound, children, reported, state, reportedOutcome, childStep,
                  childRound, inspectStatus, Next.loop, handleStop, survived]

end BlackboxProfiling.Functime
