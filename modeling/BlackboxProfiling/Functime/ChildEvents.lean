import BlackboxProfiling.Functime.TraceeSequence

/-!
`main` and `child_exit_handler` as they interleave. The handler runs between any two
steps of `main`, with `SIGCHLD` blocked, and reaps what it finds; a tracee stops and
exits whenever it likes. A stop or exit raises `SIGCHLD`, which is pending at most
once, and is dropped while no handler is installed.
-/

namespace BlackboxProfiling.Functime

open EventRun

inductive Wstat where
  | stopped
  | exited
  | signaled
  deriving DecidableEq, Repr

/-- A stop or an exit stays until it is reaped. -/
inductive ChildState where
  | running
  | stopped (arrival : Arrival)
  | exited

def ChildState.changed : ChildState → Bool
  | .running => false
  | .stopped _arrival | .exited => true

structure Child where
  pid : Nat
  serial : Nat
  state : ChildState

/-- Where `main` is: `forked` has the result of `run_debuggee` in hand, `testing` is
about to look at `done`, `tested` has found it unset and is about to suspend. -/
inductive MainCode where
  | between
  | forked (pid : Nat)
  | stored
  | testing
  | tested
  | suspended
  | leaving
  | ended
  deriving DecidableEq, Repr

/-- `handler` is the `wstat` of a handler that is running. `told` pairs the tracee that
stopped with the pid written to `/proc/memprofile`, `stale` has the pids written when none
had stopped. -/
structure Session where
  main : MainCode
  installed : Bool
  pending : Bool
  handler : Option Wstat
  children : List Child
  launches : Nat
  tracer : Tracer
  told : List (Nat × Nat)
  stale : List Nat

inductive Event where
  | launch (pid : Nat) (kernelParams : BothMultiple.Params) (newRound : Bool)
  | advance
  | stop (serial : Nat) (arrival : Arrival)
  | exit (serial : Nat)
  | deliver (unset : Wstat)
  | round (surroundings : Surroundings)

/-! ### The steps -/

/-- A failed `fork` makes no child and gives the pid zero. -/
def launch (session : Session) (pid : Nat) (kernelParams : BothMultiple.Params)
    (newRound : Bool) : Session :=
  { session with
    main := .forked pid
    children :=
      if pid = 0 then session.children
      else session.children ++ [⟨pid, session.launches, .running⟩]
    launches := session.launches + 1
    tracer :=
      { session.tracer with
        kernelParams := kernelParams
        samples := if newRound then 0 else session.tracer.samples } }

def storePid (tracer : Tracer) (pid : Nat) : Tracer :=
  { tracer with tparams := { tracer.tparams with pid := pid } }

def advance (session : Session) : Session :=
  match session.main with
  | .between => { session with main := .ended }
  | .forked pid =>
      { session with
        main := if pid = 0 then .ended else .stored
        tracer := storePid session.tracer pid }
  | .stored => { session with main := .testing, installed := true }
  | .testing => { session with main := if session.tracer.done then .leaving else .tested }
  | .tested => { session with main := .suspended }
  | .suspended => session
  | .leaving => { session with main := .between, tracer := { session.tracer with done := false } }
  | .ended => session

def Child.isRunning (serial : Nat) (child : Child) : Bool :=
  decide (child.serial = serial) && !child.state.changed

def changeChild (session : Session) (serial : Nat) (state : ChildState) : Session :=
  if session.children.any (Child.isRunning serial) then
    { session with
      children := session.children.map (fun child =>
        if child.isRunning serial then { child with state := state } else child)
      pending := session.pending || session.installed }
  else session

/-- A caught signal ends the `sigsuspend`. -/
def returnFromHandler (session : Session) : Session :=
  { session with
    handler := none
    main := if session.main = .suspended then .testing else session.main }

def recordsAt (tracer : Tracer) (surroundings : Surroundings) : List BothMultiple.Params :=
  match tracer.stage with
  | .entry =>
      match scanHeap tracer surroundings with
      | none => []
      | some maps =>
          (writeRequest { tracer with maps := maps } surroundings).requests.drop
            tracer.requests.length
  | .init | .exit => []

/-- `waitpid` with `WNOHANG` reports the first child that has changed. -/
def waitpid (children : List Child) : Option Child :=
  children.find? (fun child => child.state.changed)

def reap (session : Session) (child : Child) : Session :=
  { session with children := session.children.filter (fun other => other.serial ≠ child.serial) }

def handleStop (session : Session) (child : Child) (arrival : Arrival) : Session :=
  let told := session.told ++
    (recordsAt session.tracer arrival.surroundings).map (fun record => (child.pid, record.pid))
  match (stopped session.tracer child.serial arrival).tracer with
  | none => { session with main := .ended, handler := none, told := told }
  | some tracer =>
      { session with
        handler := some .stopped
        children := session.children.map (fun other =>
          if other.serial = child.serial then { other with state := .running } else other)
        tracer := tracer
        told := told }

def setDone (session : Session) : Session :=
  { session with tracer := { session.tracer with done := true } }

/-- No call of `ptrace` succeeds. -/
def Replies.none : Replies := ⟨false, false, false, false, false, false, false⟩

/-- No process has the pid `-1`, so nothing of this one is ever read. -/
def lostTracee : Tracee :=
  { serial := 0, text := fun _place => 0, regs := ⟨fun _register => 0⟩, written := [] }

/-- Without children `waitpid` fails with `ECHILD` and `wstat` is looked at as it is. If
it reads as a stop, `handle_trace_event` is called for the pid `-1`. -/
def noChild (session : Session) (wstat : Wstat) (surroundings : Surroundings) : Session :=
  match wstat with
  | .stopped =>
      let stale := session.stale ++
        (recordsAt session.tracer surroundings).map BothMultiple.Params.pid
      match (handleTraceEvent session.tracer lostTracee 0 .none surroundings).tracer with
      | none => { session with main := .ended, handler := none, stale := stale }
      | some tracer => { session with tracer := tracer, stale := stale }
  | .exited => returnFromHandler (setDone session)
  | .signaled => session

def handlerRound (session : Session) (wstat : Wstat) (surroundings : Surroundings) : Session :=
  match session.children with
  | [] => noChild session wstat surroundings
  | first :: others =>
      match waitpid (first :: others) with
      | none => returnFromHandler session
      | some child =>
          match child.state with
          | .running => session
          | .stopped arrival => handleStop session child arrival
          | .exited => returnFromHandler (setDone (reap session child))

/-- An event that cannot happen leaves everything as it is. -/
def sessionStep (session : Session) : Event → Session
  | .launch pid kernelParams newRound =>
      if session.main = .between ∧ session.handler = none then
        launch session pid kernelParams newRound
      else session
  | .advance => if session.handler = none then advance session else session
  | .stop serial arrival => changeChild session serial (.stopped arrival)
  | .exit serial => changeChild session serial .exited
  | .deliver unset =>
      if session.pending = true ∧ session.handler = none ∧ session.main ≠ .ended then
        { session with pending := false, handler := some unset }
      else session
  | .round surroundings =>
      match session.handler with
      | none => session
      | some wstat => handlerRound session wstat surroundings

def startSession (tracer : Tracer) : Session :=
  { main := .between
    installed := false
    pending := false
    handler := none
    children := []
    launches := 0
    tracer := { tracer with done := false }
    told := []
    stale := [] }

/-! ### No lost event -/

def Session.Unreaped (session : Session) : Prop :=
  ∃ child ∈ session.children, child.state.changed = true

/-- What holds of a state in which no event has been lost; `between` is where `main` is
when `handle_tracee_signals` has returned. -/
structure NoneLost (session : Session) : Prop where
  notDone : session.main = .suspended → session.handler = none → session.tracer.done = false
  signalled : session.main = .suspended → session.handler = none → session.Unreaped →
    session.pending = true
  exited : session.main = .between → ∀ child ∈ session.children, child.state = .exited

/-- No stop or exit before the handler is installed, no exit reaped between the test of
`done` and the suspension, no unset status taken for an exit while `done` is unset. -/
def Heard (session : Session) : Event → Prop
  | .stop serial _arrival | .exit serial =>
      session.children.any (Child.isRunning serial) = true → session.installed = true
  | .round _surroundings => ∀ wstat, session.handler = some wstat →
      (∀ child, waitpid session.children = some child → child.state = .exited →
        session.main ≠ .tested) ∧
      (session.children = [] → wstat = .exited → session.tracer.done = true)
  | .launch _pid _kernelParams _newRound | .advance | .deliver _unset => True

structure Orderly (session : Session) : Prop where
  single : session.children.length ≤ 1
  signalled : session.handler = none → session.Unreaped → session.pending = true
  reaped : session.tracer.done = true → session.children = []
  unset : session.main = .between ∨ session.main = .tested ∨ session.main = .suspended →
    session.tracer.done = false
  leaves : session.main = .leaving → session.tracer.done = true
  idle : session.main = .between → session.children = []

def SessionInv (session : Session) : Prop :=
  (session.main = .ended ∧ session.handler = none) ∨ Orderly session

theorem SessionInv.noneLost (session : Session) (inv : SessionInv session) :
    NoneLost session := by
  rcases inv with ⟨ended, _idle⟩ | orderly
  · constructor
    · intro suspended
      rw [ended] at suspended
      cases suspended
    · intro suspended
      rw [ended] at suspended
      cases suspended
    · intro between
      rw [ended] at between
      cases between
  · constructor
    · intro suspended _idle
      exact orderly.unset (Or.inr (Or.inr suspended))
    · intro _suspended idle unreaped
      exact orderly.signalled idle unreaped
    · intro between child member
      rw [orderly.idle between] at member
      cases member

private theorem startSession_inv (tracer : Tracer) : SessionInv (startSession tracer) := by
  right
  constructor
  · exact Nat.zero_le 1
  · rintro _idle ⟨child, member, _changed⟩
    cases member
  · intro done
    cases done
  · intro _place
    rfl
  · intro leaving
    cases leaving
  · intro _between
    rfl

theorem stopped_keeps (tracer next : Tracer) (serial : Nat) (arrival : Arrival)
    (survived : (stopped tracer serial arrival).tracer = some next) :
    next.done = tracer.done ∧ next.tparams.pid = tracer.tparams.pid := by
  unfold stopped handleTraceEvent at survived
  cases stage : tracer.stage with
  | init =>
      rw [stage] at survived
      rw [resume_tracer _ _ _ _ survived]
      exact ⟨rfl, rfl⟩
  | entry =>
      rw [stage] at survived
      obtain ⟨maps, same⟩ := traceeEntry_some tracer next _ _ _ survived
      rw [same] at survived
      rw [resume_tracer _ _ _ _ survived]
      exact ⟨rfl, rfl⟩
  | exit =>
      rw [stage] at survived
      rw [traceeExit_some tracer next _ _ _ survived] at survived
      rw [resume_tracer _ _ _ _ survived]
      exact ⟨rfl, rfl⟩

private theorem launch_orderly (session : Session) (pid : Nat) (kernelParams : BothMultiple.Params)
    (newRound : Bool) (orderly : Orderly session) (between : session.main = .between) :
    Orderly (launch session pid kernelParams newRound) := by
  have none_ := orderly.idle between
  have unset := orderly.unset (Or.inl between)
  constructor
  · simp only [launch, none_]
    split
    · exact Nat.zero_le 1
    · exact Nat.le_refl 1
  · rintro _idle ⟨child, member, changed⟩
    simp only [launch, none_] at member
    split at member
    · cases member
    · rw [List.mem_singleton.mp member] at changed
      cases changed
  · intro done
    exact absurd (unset.symm.trans done) (by decide)
  · rintro (place | place | place) <;> cases place
  · intro place
    cases place
  · intro place
    cases place

private theorem changeChild_orderly (session : Session) (serial : Nat) (state : ChildState)
    (orderly : Orderly session)
    (heard : session.children.any (Child.isRunning serial) = true → session.installed = true) :
    Orderly (changeChild session serial state) := by
  unfold changeChild
  split
  · rename_i present
    constructor
    · rw [List.length_map]
      exact orderly.single
    · intro _idle _unreaped
      dsimp only
      rw [heard present, Bool.or_true]
    · intro done
      dsimp only
      rw [orderly.reaped done]
      rfl
    · exact orderly.unset
    · exact orderly.leaves
    · intro between
      dsimp only
      rw [orderly.idle between]
      rfl
  · exact orderly

theorem Orderly.moved (session next : Session) (orderly : Orderly session)
    (children : next.children = session.children) (pending : next.pending = session.pending)
    (handler : next.handler = session.handler) (done : next.tracer.done = session.tracer.done)
    (unset : next.main = .between ∨ next.main = .tested ∨ next.main = .suspended →
      session.tracer.done = false)
    (leaves : next.main = .leaving → session.tracer.done = true)
    (idle : next.main = .between → session.children = []) : Orderly next := by
  constructor
  · rw [children]
    exact orderly.single
  · unfold Session.Unreaped
    rw [handler, pending, children]
    exact orderly.signalled
  · rw [done, children]
    exact orderly.reaped
  · rw [done]
    exact unset
  · rw [done]
    exact leaves
  · rw [children]
    exact idle

section Moved

variable (session next : Session) (orderly : Orderly session)
  (children : next.children = session.children) (pending : next.pending = session.pending)
  (handler : next.handler = session.handler) (done : next.tracer.done = session.tracer.done)
include orderly children pending handler done

theorem Orderly.goesOn (place : next.main = .stored ∨ next.main = .testing) : Orderly next := by
  apply Orderly.moved session next orderly children pending handler done
  · intro waiting
    rcases place with stored | testing
    · simp [stored] at waiting
    · simp [testing] at waiting
  · intro leaving
    rcases place with stored | testing
    · simp [stored] at leaving
    · simp [testing] at leaving
  · intro between
    rcases place with stored | testing
    · simp [stored] at between
    · simp [testing] at between

theorem Orderly.waits (place : next.main = .tested ∨ next.main = .suspended)
    (unset : session.tracer.done = false) : Orderly next := by
  apply Orderly.moved session next orderly children pending handler done
  · intro _waiting
    exact unset
  · intro leaving
    rcases place with tested | suspended
    · simp [tested] at leaving
    · simp [suspended] at leaving
  · intro between
    rcases place with tested | suspended
    · simp [tested] at between
    · simp [suspended] at between

theorem Orderly.left (place : next.main = .leaving) (set : session.tracer.done = true) :
    Orderly next := by
  apply Orderly.moved session next orderly children pending handler done
  · intro waiting
    simp [place] at waiting
  · intro _leaving
    exact set
  · intro between
    simp [place] at between

end Moved

private theorem advance_inv (session : Session) (orderly : Orderly session)
    (notHandling : session.handler = none) : SessionInv (advance session) := by
  unfold advance
  cases place : session.main with
  | between => exact Or.inl ⟨rfl, notHandling⟩
  | forked pid =>
      by_cases failed : pid = 0
      · exact Or.inl ⟨if_pos failed, notHandling⟩
      · right
        exact Orderly.goesOn session _ orderly rfl rfl rfl rfl (Or.inl (if_neg failed))
  | stored =>
      right
      exact Orderly.goesOn session _ orderly rfl rfl rfl rfl (Or.inr rfl)
  | testing =>
      right
      cases done : session.tracer.done with
      | true => exact Orderly.left session _ orderly rfl rfl rfl rfl rfl done
      | false => exact Orderly.waits session _ orderly rfl rfl rfl rfl (Or.inl rfl) done
  | tested =>
      right
      exact Orderly.waits session _ orderly rfl rfl rfl rfl (Or.inr rfl)
        (orderly.unset (Or.inr (Or.inl place)))
  | suspended => exact Or.inr orderly
  | leaving =>
      right
      have gone := orderly.reaped (orderly.leaves place)
      constructor
      · exact orderly.single
      · exact orderly.signalled
      · intro _done
        exact gone
      · intro _between
        rfl
      · intro impossible
        cases impossible
      · intro _between
        exact gone
  | ended => exact Or.inr orderly

/-- Leaving the handler ends a suspension, so the invariant only has to hold of a state
in which `main` is not suspended. -/
theorem returnFromHandler_orderly (session : Session) (single : session.children.length ≤ 1)
    (none_ : ∀ child ∈ session.children, child.state.changed = false)
    (reaped : session.tracer.done = true → session.children = [])
    (unset : session.main = .between ∨ session.main = .tested → session.tracer.done = false)
    (leaves : session.main = .leaving → session.tracer.done = true)
    (idle : session.main = .between → session.children = []) :
    Orderly (returnFromHandler session) := by
  have place (main : MainCode) (here : (returnFromHandler session).main = main)
      (other : main ≠ .testing) : session.main = main ∧ main ≠ .suspended := by
    simp only [returnFromHandler] at here
    split at here
    · exact absurd here.symm other
    · rename_i awake
      rw [here] at awake
      exact ⟨here, awake⟩
  constructor
  · exact single
  · rintro _idle ⟨child, member, changed⟩
    rw [none_ child member] at changed
    cases changed
  · exact reaped
  · rintro (between | tested | suspended)
    · exact unset (Or.inl (place _ between (by decide)).1)
    · exact unset (Or.inr (place _ tested (by decide)).1)
    · exact absurd rfl (place _ suspended (by decide)).2
  · intro leaving
    exact leaves (place _ leaving (by decide)).1
  · intro between
    exact idle (place _ between (by decide)).1

private theorem handleStop_inv (session : Session) (child : Child) (arrival : Arrival)
    (orderly : Orderly session) : SessionInv (handleStop session child arrival) := by
  dsimp only [handleStop]
  split
  · exact Or.inl ⟨rfl, rfl⟩
  · rename_i tracer survived
    right
    have sameDone := (stopped_keeps session.tracer tracer child.serial arrival survived).1
    constructor
    · rw [List.length_map]
      exact orderly.single
    · intro impossible
      cases impossible
    · intro done
      rw [sameDone] at done
      dsimp only
      rw [orderly.reaped done]
      rfl
    · intro place
      exact sameDone.trans (orderly.unset place)
    · intro leaving
      exact sameDone.trans (orderly.leaves leaving)
    · intro between
      dsimp only
      rw [orderly.idle between]
      rfl

theorem handleTraceEvent_lost (tracer : Tracer) (surroundings : Surroundings) :
    (handleTraceEvent tracer lostTracee 0 .none surroundings).tracer = none := by
  unfold handleTraceEvent
  cases tracer.stage with
  | init => rfl
  | entry =>
      dsimp only [traceeEntry]
      split <;> rfl
  | exit => rfl

theorem noChild_stopped (session : Session) (surroundings : Surroundings) :
    noChild session .stopped surroundings =
      { session with
        main := .ended
        handler := none
        stale := session.stale ++
          (recordsAt session.tracer surroundings).map BothMultiple.Params.pid } := by
  simp only [noChild, handleTraceEvent_lost]

private theorem noChild_inv (session : Session) (wstat : Wstat) (surroundings : Surroundings)
    (orderly : Orderly session) (none_ : session.children = [])
    (fresh : wstat = .exited → session.tracer.done = true) :
    SessionInv (noChild session wstat surroundings) := by
  cases wstat with
  | stopped =>
      rw [noChild_stopped]
      exact Or.inl ⟨rfl, rfl⟩
  | signaled => exact Or.inr orderly
  | exited =>
      right
      have done := fresh rfl
      apply returnFromHandler_orderly (setDone session)
      · exact orderly.single
      · intro child member
        have gone : child ∈ session.children := member
        rw [none_] at gone
        cases gone
      · intro _done
        exact none_
      · intro place
        have unset := orderly.unset (place.imp_right Or.inl)
        exact absurd (unset.symm.trans done) (by decide)
      · intro _leaving
        rfl
      · intro _between
        exact none_

theorem waitpid_some (children : List Child) (child : Child)
    (found : waitpid children = some child) : child ∈ children ∧ child.state.changed = true := by
  have changed := List.find?_some found
  exact ⟨List.mem_of_find?_eq_some found, changed⟩

private theorem reap_single (session : Session) (child : Child) (single : session.children.length ≤ 1)
    (member : child ∈ session.children) : (reap session child).children = [] := by
  have alone : session.children = [child] := by
    cases children : session.children with
    | nil =>
        rw [children] at member
        cases member
    | cons head rest =>
        rw [children] at single member
        have empty : rest = [] := List.eq_nil_of_length_eq_zero (by
          rw [List.length_cons] at single
          omega)
        rw [empty] at member ⊢
        rw [List.mem_singleton.mp member]
  simp only [reap, alone, ne_eq, not_true_eq_false, decide_false, List.filter_cons_of_neg,
    List.filter_nil, Bool.false_eq_true, not_false_eq_true]

private theorem handlerRound_inv (session : Session) (wstat : Wstat) (surroundings : Surroundings)
    (orderly : Orderly session) (handling : session.handler = some wstat)
    (heard : Heard session (.round surroundings)) :
    SessionInv (handlerRound session wstat surroundings) := by
  obtain ⟨awake, fresh⟩ := heard wstat handling
  unfold handlerRound
  split
  · rename_i none_
    exact noChild_inv session wstat surroundings orderly none_ (fresh none_)
  · rename_i first others children
    rw [← children]
    split
    · rename_i unchanged
      right
      apply returnFromHandler_orderly session orderly.single
      · intro child member
        exact Bool.eq_false_iff.mpr (List.find?_eq_none.mp unchanged child member)
      · exact orderly.reaped
      · intro place
        exact orderly.unset (place.imp_right Or.inl)
      · exact orderly.leaves
      · exact orderly.idle
    · rename_i child reported
      obtain ⟨member, changed⟩ := waitpid_some session.children child reported
      cases state : child.state with
      | running => exact Or.inr orderly
      | stopped arrival => exact handleStop_inv session child arrival orderly
      | exited =>
          right
          have gone := reap_single session child orderly.single member
          have between : session.main ≠ .between := by
            intro between
            rw [orderly.idle between] at member
            cases member
          apply returnFromHandler_orderly (setDone (reap session child))
          · exact Nat.le_trans (Nat.le_of_eq (congrArg List.length gone)) (Nat.zero_le 1)
          · intro other otherMember
            have impossible : other ∈ (reap session child).children := otherMember
            rw [gone] at impossible
            cases impossible
          · intro _done
            exact gone
          · rintro (here | here)
            · exact absurd here between
            · exact absurd here (awake child reported state)
          · intro _leaving
            rfl
          · intro _between
            exact gone

private theorem Orderly.delivered (session : Session) (unset : Wstat) (orderly : Orderly session) :
    Orderly { session with pending := false, handler := some unset } := by
  constructor
  · exact orderly.single
  · intro impossible
    cases impossible
  · exact orderly.reaped
  · exact orderly.unset
  · exact orderly.leaves
  · exact orderly.idle

theorem sessionStep_ended (session : Session) (event : Event) (ended : session.main = .ended)
    (idle : session.handler = none) :
    (sessionStep session event).main = .ended ∧ (sessionStep session event).handler = none ∧
      (sessionStep session event).told = session.told := by
  have kept (serial : Nat) (state : ChildState) : (changeChild session serial state).main = .ended ∧
      (changeChild session serial state).handler = none ∧
      (changeChild session serial state).told = session.told := by
    unfold changeChild
    split
    · exact ⟨ended, idle, rfl⟩
    · exact ⟨ended, idle, rfl⟩
  cases event with
  | launch pid kernelParams newRound =>
      have elsewhere : ¬ (session.main = .between ∧ session.handler = none) := by
        rw [ended]
        rintro ⟨impossible, _idle⟩
        cases impossible
      simp only [sessionStep, if_neg elsewhere]
      exact ⟨ended, idle, trivial⟩
  | advance =>
      simp only [sessionStep, idle, if_true, advance, ended]
      exact ⟨trivial, trivial, trivial⟩
  | stop serial arrival => exact kept serial (.stopped arrival)
  | exit serial => exact kept serial .exited
  | deliver unset =>
      have gone : ¬ (session.pending = true ∧ session.handler = none ∧ session.main ≠ .ended) :=
        fun both => both.2.2 ended
      simp only [sessionStep, if_neg gone]
      exact ⟨ended, idle, trivial⟩
  | round surroundings =>
      simp only [sessionStep, idle]
      exact ⟨ended, trivial, trivial⟩

private theorem sessionStep_inv (session : Session) (event : Event) (inv : SessionInv session)
    (heard : Heard session event) : SessionInv (sessionStep session event) := by
  rcases inv with ⟨ended, idle⟩ | orderly
  · obtain ⟨stays, free, _told⟩ := sessionStep_ended session event ended idle
    exact Or.inl ⟨stays, free⟩
  · cases event with
    | launch pid kernelParams newRound =>
        simp only [sessionStep]
        split
        · rename_i ready
          exact Or.inr (launch_orderly session pid kernelParams newRound orderly ready.1)
        · exact Or.inr orderly
    | advance =>
        simp only [sessionStep]
        split
        · rename_i idle
          exact advance_inv session orderly idle
        · exact Or.inr orderly
    | stop serial arrival =>
        exact Or.inr (changeChild_orderly session serial (.stopped arrival) orderly heard)
    | exit serial => exact Or.inr (changeChild_orderly session serial .exited orderly heard)
    | deliver unset =>
        simp only [sessionStep]
        split
        · exact Or.inr (orderly.delivered session unset)
        · exact Or.inr orderly
    | round surroundings =>
        simp only [sessionStep]
        split
        · exact Or.inr orderly
        · rename_i wstat handling
          exact handlerRound_inv session wstat surroundings orderly handling heard

/-- No child event is lost in a run whose steps all fit. -/
theorem childEvents_noneLost (tracer : Tracer) (events : List Event)
    (heard : EachStep sessionStep Heard (startSession tracer) events) :
    Always sessionStep NoneLost (startSession tracer) events :=
  always_of_eachStep sessionStep NoneLost SessionInv Heard sessionStep_inv
    SessionInv.noneLost (startSession tracer) (startSession_inv tracer) events heard

def sampleLaunch : Event := .launch 7 { buff := [0], shouldSkip := false, pid := 0 } true

def sampleRound : Event := .round sampleArrival.surroundings

def sampleEvents : List Event :=
  [sampleLaunch, .advance, .advance, .advance, .advance, .stop 0 sampleArrival,
    .deliver .signaled, sampleRound, sampleRound, .advance, .advance, .exit 0, .deliver .signaled,
    sampleRound, .advance, .advance]

theorem childEvents_noneLost_sample :
    Always sessionStep NoneLost (startSession sampleTracer) sampleEvents ∧
      (run sessionStep (startSession sampleTracer) sampleEvents).main = .between ∧
      (run sessionStep (startSession sampleTracer) sampleEvents).launches = 1 := by
  refine ⟨childEvents_noneLost sampleTracer sampleEvents ?_, rfl, rfl⟩
  refine ⟨trivial, trivial, trivial, trivial, trivial, fun _running => rfl, trivial, ?_, ?_, trivial,
    trivial, fun _running => rfl, trivial, ?_, trivial, trivial, trivial⟩
  · intro wstat _handling
    refine ⟨fun child reported state => ?_, fun none_ => ?_⟩
    · cases reported
      cases state
    · cases none_
  · intro wstat _handling
    refine ⟨fun child reported _state => ?_, fun none_ => ?_⟩
    · cases reported
    · cases none_
  · intro wstat _handling
    refine ⟨fun _child _reported _state => ?_, fun none_ => ?_⟩
    · intro tested
      cases tested
    · cases none_

/-- A stop before the handler is installed, an exit between the test and the suspension,
and a handler run without a child after the tracee has been reaped. -/
theorem childEvents_lost :
    ¬ Always sessionStep NoneLost (startSession sampleTracer)
        [sampleLaunch, .stop 0 sampleArrival, .advance, .advance, .advance, .advance] ∧
      ¬ Always sessionStep NoneLost (startSession sampleTracer)
        [sampleLaunch, .advance, .advance, .advance, .exit 0, .deliver .signaled, sampleRound,
          .advance] ∧
      ¬ Always sessionStep NoneLost (startSession sampleTracer)
        [sampleLaunch, .advance, .advance, .stop 0 sampleArrival, .deliver .signaled, sampleRound,
          .exit 0, sampleRound, .advance, .advance, .deliver .exited, sampleRound, sampleLaunch,
          .advance, .advance, .advance, .advance] := by
  refine ⟨?_, ?_, ?_⟩
  · intro always
    have pending := always.last.signalled rfl rfl ⟨_, List.mem_singleton_self _, rfl⟩
    cases pending
  · intro always
    have unset := always.last.notDone rfl rfl
    cases unset
  · intro always
    have exited := always.last.exited rfl _ (List.mem_singleton_self _)
    cases exited

end BlackboxProfiling.Functime
