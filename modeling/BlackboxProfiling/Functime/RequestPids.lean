import BlackboxProfiling.Functime.ChildEvents

/-!
Which process a record written to `/proc/memprofile` names. The handler knows the pid
of the tracee that stopped but writes the one `main` has stored, and from the second
tracee on it may run before `main` has stored it.
-/

namespace BlackboxProfiling.Functime

open EventRun

def RightPids (session : Session) : Prop := ∀ pair ∈ session.told, pair.2 = pair.1

def Session.stored (session : Session) : Nat :=
  match session.main with
  | .forked _pid => session.launches - 1
  | _ => session.launches

/-- A stop handled in the entry stage is one of the tracee whose pid was stored last. -/
def StoppedLastStored (session : Session) : Event → Prop
  | .round _surroundings => session.handler ≠ none → ∀ child arrival,
      waitpid session.children = some child → child.state = .stopped arrival →
        session.tracer.stage = .entry → child.serial + 1 = session.stored
  | _ => True

structure PidsKnown (session : Session) : Prop where
  right : RightPids session
  known : ∀ child ∈ session.children, child.serial + 1 = session.stored →
    child.pid = session.tracer.tparams.pid
  inHand : ∀ pid, session.main = .forked pid → ∀ child ∈ session.children,
    child.serial + 1 = session.launches → child.pid = pid
  numbered : ∀ child ∈ session.children, child.serial < session.launches

def PidsInv (session : Session) : Prop :=
  (session.main = .ended ∧ session.handler = none ∧ RightPids session) ∨ PidsKnown session

private theorem recordsAt_pid (tracer : Tracer) (surroundings : Surroundings)
    (record : BothMultiple.Params) (member : record ∈ recordsAt tracer surroundings) :
    record.pid = tracer.tparams.pid ∧ tracer.stage = .entry := by
  unfold recordsAt at member
  split at member
  · rename_i atEntry
    split at member
    · cases member
    · simp only [writeRequest] at member
      split at member
      · rw [List.drop_left, List.mem_singleton] at member
        rw [member]
        exact ⟨rfl, atEntry⟩
      · rw [List.drop_length] at member
        cases member
  · cases member
  · cases member

private theorem writeRequest_requests (tracer : Tracer) (surroundings : Surroundings) :
    (writeRequest tracer surroundings).requests =
      tracer.requests ++
        (writeRequest tracer surroundings).requests.drop tracer.requests.length := by
  simp only [writeRequest]
  split
  · rw [List.drop_left]
  · rw [List.drop_length, List.append_nil]

/-- The records are what a stop that is survived adds to those of the tracer. -/
theorem stopped_requests (tracer next : Tracer) (serial : Nat) (arrival : Arrival)
    (survived : (stopped tracer serial arrival).tracer = some next) :
    next.requests = tracer.requests ++ recordsAt tracer arrival.surroundings := by
  unfold stopped handleTraceEvent at survived
  unfold recordsAt
  cases stage : tracer.stage with
  | init =>
      rw [stage] at survived
      rw [resume_tracer _ _ _ _ survived, List.append_nil]
  | entry =>
      rw [stage] at survived
      dsimp only [traceeEntry] at survived ⊢
      cases scanned : scanHeap tracer arrival.surroundings with
      | none =>
          rw [scanned] at survived
          cases survived
      | some maps =>
          rw [scanned] at survived
          dsimp only at survived ⊢
          split at survived
          · cases survived
          · rw [resume_tracer _ _ _ _ survived]
            exact writeRequest_requests { tracer with maps := maps } arrival.surroundings
  | exit =>
      rw [stage] at survived
      rw [traceeExit_some tracer next _ _ _ survived] at survived
      rw [resume_tracer _ _ _ _ survived, List.append_nil]

theorem PidsKnown.moved (session next : Session) (known : PidsKnown session)
    (right : RightPids next)
    (children : ∀ child ∈ next.children,
      ∃ old ∈ session.children, old.pid = child.pid ∧ old.serial = child.serial)
    (launches : next.launches = session.launches)
    (forked : ∀ pid, next.main = .forked pid ↔ session.main = .forked pid)
    (pid : next.tracer.tparams.pid = session.tracer.tparams.pid) : PidsKnown next := by
  have stored : next.stored = session.stored := by
    unfold Session.stored
    rw [launches]
    split
    · rename_i held place
      rw [(forked held).mp place]
    · rename_i elsewhere
      split
      · rename_i held place
        exact absurd ((forked held).mpr place) (elsewhere held)
      · rfl
  refine ⟨right, ?_, ?_, ?_⟩
  · intro child member last
    obtain ⟨old, oldMember, samePid, sameSerial⟩ := children child member
    rw [← samePid, pid]
    exact known.known old oldMember (by rw [sameSerial, last, stored])
  · intro held place child member last
    obtain ⟨old, oldMember, samePid, sameSerial⟩ := children child member
    rw [← samePid]
    exact known.inHand held ((forked held).mp place) old oldMember
      (by rw [sameSerial, last, launches])
  · intro child member
    obtain ⟨old, oldMember, _samePid, sameSerial⟩ := children child member
    rw [← sameSerial, launches]
    exact known.numbered old oldMember

private theorem launch_pidsKnown (session : Session) (pid : Nat) (kernelParams : BothMultiple.Params)
    (newRound : Bool) (known : PidsKnown session) (between : session.main = .between) :
    PidsKnown (launch session pid kernelParams newRound) := by
  have stored : session.stored = session.launches := by
    unfold Session.stored
    rw [between]
  have cases_ (child : Child)
      (member : child ∈ (launch session pid kernelParams newRound).children) :
      child ∈ session.children ∨ child = ⟨pid, session.launches, .running⟩ := by
    simp only [launch] at member
    split at member
    · exact Or.inl member
    · exact (List.mem_append.mp member).imp_right List.mem_singleton.mp
  refine ⟨known.right, ?_, ?_, ?_⟩
  · intro child member last
    have here : child.serial + 1 = session.launches := last
    rcases cases_ child member with old | rfl
    · exact known.known child old (by rw [here, stored])
    · exact absurd here (Nat.succ_ne_self _)
  · intro held place child member last
    cases place
    have here : child.serial + 1 = session.launches + 1 := last
    rcases cases_ child member with old | rfl
    · have numbered := known.numbered child old
      omega
    · rfl
  · intro child member
    have numbers : (launch session pid kernelParams newRound).launches = session.launches + 1 := rfl
    rw [numbers]
    rcases cases_ child member with old | rfl
    · exact Nat.lt_succ_of_lt (known.numbered child old)
    · exact Nat.lt_succ_self _

private theorem sameChildren (session : Session) (child : Child) (member : child ∈ session.children) :
    ∃ old ∈ session.children, old.pid = child.pid ∧ old.serial = child.serial :=
  ⟨child, member, rfl, rfl⟩

private theorem advance_pidsInv (session : Session) (known : PidsKnown session)
    (notHandling : session.handler = none) : PidsInv (advance session) := by
  unfold advance
  cases place : session.main with
  | between => exact Or.inl ⟨rfl, notHandling, known.right⟩
  | forked pid =>
      by_cases failed : pid = 0
      · exact Or.inl ⟨if_pos failed, notHandling, known.right⟩
      · right
        have next : (if pid = 0 then MainCode.ended else .stored) = .stored := if_neg failed
        dsimp only
        rw [next]
        refine ⟨known.right, ?_, ?_, known.numbered⟩
        · intro child member last
          exact known.inHand pid place child member last
        · intro held impossible
          cases impossible
  | stored | tested | leaving =>
      right
      refine PidsKnown.moved session _ known known.right (sameChildren session) rfl ?_ rfl
      intro held
      rw [place]
      constructor
      · intro impossible
        cases impossible
      · intro impossible
        cases impossible
  | testing =>
      right
      refine PidsKnown.moved session _ known known.right (sameChildren session) rfl ?_ rfl
      intro held
      rw [place]
      constructor
      · intro impossible
        dsimp only at impossible
        split at impossible
        · cases impossible
        · cases impossible
      · intro impossible
        cases impossible
  | suspended | ended => exact Or.inr known

private theorem returnFromHandler_forked (session : Session) (pid : Nat) :
    (returnFromHandler session).main = .forked pid ↔ session.main = .forked pid := by
  unfold returnFromHandler
  dsimp only
  split
  · rename_i suspended
    rw [suspended]
    constructor
    · intro impossible
      cases impossible
    · intro impossible
      cases impossible
  · exact Iff.rfl

private theorem changeChild_pidsKnown (session : Session) (serial : Nat) (state : ChildState)
    (known : PidsKnown session) : PidsKnown (changeChild session serial state) := by
  unfold changeChild
  split
  · refine PidsKnown.moved session _ known known.right ?_ rfl (fun _pid => Iff.rfl) rfl
    intro child member
    obtain ⟨old, oldMember, same⟩ := List.mem_map.mp member
    refine ⟨old, oldMember, ?_⟩
    rw [← same]
    split
    · exact ⟨rfl, rfl⟩
    · exact ⟨rfl, rfl⟩
  · exact known

private theorem handleStop_pidsInv (session : Session) (child : Child) (arrival : Arrival)
    (known : PidsKnown session) (member : child ∈ session.children)
    (last : session.tracer.stage = .entry → child.serial + 1 = session.stored) :
    PidsInv (handleStop session child arrival) := by
  have right : ∀ pair ∈ session.told ++
      (recordsAt session.tracer arrival.surroundings).map (fun record => (child.pid, record.pid)),
      pair.2 = pair.1 := by
    intro pair told
    rcases List.mem_append.mp told with earlier | now
    · exact known.right pair earlier
    · obtain ⟨record, written, rfl⟩ := List.mem_map.mp now
      obtain ⟨pid, atEntry⟩ := recordsAt_pid session.tracer arrival.surroundings record written
      exact pid.trans (known.known child member (last atEntry)).symm
  dsimp only [handleStop]
  split
  · exact Or.inl ⟨rfl, rfl, right⟩
  · rename_i tracer survived
    right
    have samePid := (stopped_keeps session.tracer tracer child.serial arrival survived).2
    refine PidsKnown.moved session _ known right ?_ rfl (fun _pid => Iff.rfl) samePid
    intro other otherMember
    obtain ⟨old, oldMember, same⟩ := List.mem_map.mp otherMember
    refine ⟨old, oldMember, ?_⟩
    rw [← same]
    split
    · exact ⟨rfl, rfl⟩
    · exact ⟨rfl, rfl⟩

private theorem handlerRound_pidsInv (session : Session) (wstat : Wstat) (surroundings : Surroundings)
    (known : PidsKnown session) (handling : session.handler = some wstat)
    (stored : StoppedLastStored session (.round surroundings)) :
    PidsInv (handlerRound session wstat surroundings) := by
  have busy : session.handler ≠ none := by
    rw [handling]
    exact Option.some_ne_none wstat
  unfold handlerRound
  split
  · cases wstat with
    | stopped =>
        rw [noChild_stopped]
        exact Or.inl ⟨rfl, rfl, known.right⟩
    | signaled => exact Or.inr known
    | exited =>
        right
        exact PidsKnown.moved session _ known known.right (sameChildren session) rfl
          (returnFromHandler_forked (setDone session)) rfl
  · rename_i first others children
    rw [← children]
    split
    · right
      exact PidsKnown.moved session _ known known.right (sameChildren session) rfl
        (returnFromHandler_forked session) rfl
    · rename_i child reported
      obtain ⟨member, _changed⟩ := waitpid_some session.children child reported
      cases state : child.state with
      | running => exact Or.inr known
      | stopped arrival =>
          exact handleStop_pidsInv session child arrival known member
            (stored busy child arrival reported state)
      | exited =>
          right
          refine PidsKnown.moved session _ known known.right ?_ rfl
            (returnFromHandler_forked (setDone (reap session child))) rfl
          intro other otherMember
          exact sameChildren session other (List.mem_of_mem_filter otherMember)

private theorem sessionStep_pidsInv (session : Session) (event : Event) (inv : PidsInv session)
    (stored : StoppedLastStored session event) : PidsInv (sessionStep session event) := by
  rcases inv with ⟨ended, idle, right⟩ | known
  · obtain ⟨stays, free, told⟩ := sessionStep_ended session event ended idle
    refine Or.inl ⟨stays, free, ?_⟩
    unfold RightPids
    rw [told]
    exact right
  · cases event with
    | launch pid kernelParams newRound =>
        simp only [sessionStep]
        split
        · rename_i ready
          exact Or.inr (launch_pidsKnown session pid kernelParams newRound known ready.1)
        · exact Or.inr known
    | advance =>
        simp only [sessionStep]
        split
        · rename_i idle
          exact advance_pidsInv session known idle
        · exact Or.inr known
    | stop serial arrival =>
        exact Or.inr (changeChild_pidsKnown session serial (.stopped arrival) known)
    | exit serial => exact Or.inr (changeChild_pidsKnown session serial .exited known)
    | deliver unset =>
        simp only [sessionStep]
        split
        · right
          exact PidsKnown.moved session _ known known.right (sameChildren session) rfl
            (fun _pid => Iff.rfl) rfl
        · exact Or.inr known
    | round surroundings =>
        simp only [sessionStep]
        split
        · exact Or.inr known
        · rename_i wstat handling
          exact handlerRound_pidsInv session wstat surroundings known handling stored

private theorem startSession_pidsKnown (tracer : Tracer) : PidsKnown (startSession tracer) := by
  constructor
  · intro pair member
    cases member
  · intro child member
    cases member
  · intro pid place
    cases place
  · intro child member
    cases member

theorem PidsInv.right (session : Session) (inv : PidsInv session) : RightPids session := by
  rcases inv with ⟨_ended, _idle, right⟩ | known
  · exact right
  · exact known.right

/-- Every record names the tracee that stopped if no stop is handled in the entry stage
but one of the tracee whose pid was stored last. -/
theorem records_rightPids (tracer : Tracer) (events : List Event)
    (stored : EachStep sessionStep StoppedLastStored (startSession tracer) events) :
    Always sessionStep RightPids (startSession tracer) events :=
  always_of_eachStep sessionStep RightPids PidsInv StoppedLastStored sessionStep_pidsInv
    PidsInv.right (startSession tracer) (Or.inr (startSession_pidsKnown tracer)) events stored

def storedEvents : List Event :=
  [sampleLaunch, .advance, .advance, .stop 0 sampleArrival, .deliver .signaled, sampleRound,
    .stop 0 sampleArrival, sampleRound]

theorem records_rightPids_sample :
    Always sessionStep RightPids (startSession sampleTracer) storedEvents ∧
      (run sessionStep (startSession sampleTracer) storedEvents).told = [(7, 7)] := by
  refine ⟨records_rightPids sampleTracer storedEvents ?_, rfl⟩
  refine ⟨trivial, trivial, trivial, trivial, trivial, ?_, trivial, ?_, trivial⟩
  · intro _busy child arrival _reported _state atEntry
    cases atEntry
  · intro _busy child arrival reported _state _atEntry
    cases reported
    rfl

/-- The second tracee reaches the breakpoint before its pid is stored. -/
theorem record_names_previous_tracee :
    ¬ Always sessionStep RightPids (startSession sampleTracer)
      [sampleLaunch, .advance, .advance, .exit 0, .deliver .signaled, sampleRound, .advance,
        .advance, .launch 8 { buff := [0], shouldSkip := false, pid := 0 } false,
        .stop 1 sampleArrival, .deliver .signaled, sampleRound, .stop 1 sampleArrival,
        sampleRound] := by
  intro always
  have named := always.last (8, 7) (List.mem_singleton_self _)
  cases named

end BlackboxProfiling.Functime
