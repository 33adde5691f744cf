import BlackboxProfiling.CallTrace
import BlackboxProfiling.Functime.Transparency

/-!
The two stops of a sample in a well-nested execution of the tracee. The tracer waits
for an address: the entry of the traced function, then the return address found there.
The second wait ends with whatever event is the first at that address, the entry it is
about to go on from included.
-/

namespace BlackboxProfiling.Functime

open CallTrace

def Arrival.returnAddr (arrival : Arrival) : Addr := arrival.regs.lr &&& armIsaMask

abbrev Execution := Trace Arrival.addr Arrival.returnAddr

/-- The stops at one moment. The tracee goes on from the address it was stopped at, so it is
stopped there again if the tracer has armed that address meanwhile. -/
def stopsAt (serial number : Nat) (now : Arrival) :
    Nat → Option Tracer → List (Nat × TraceeStage) × Option Tracer
  | 0, tracer => ([], tracer)
  | _looks + 1, none => ([], none)
  | looks + 1, some tracer =>
      if armed tracer = some now.addr then
        let again := stopsAt serial number now looks (arrive serial (some tracer) now)
        ((number, tracer.stage) :: again.1, again.2)
      else ([], some tracer)

/-- The numbers of the events the tracer is stopped at, with the stage each stop meets.
Two stages have a breakpoint, so no moment has more than two stops. -/
def traceStops (serial : Nat) : Option Tracer → Nat → List (Occurrence Arrival) →
    List (Nat × TraceeStage)
  | _, _, [] => []
  | tracer, number, event :: rest =>
      let here := stopsAt serial number event.now 2 tracer
      here.1 ++ traceStops serial here.2 (number + 1) rest

/-- The stop that ends the sample is the return from the entry that began it. -/
def MeasuresOneCall (serial : Nat) (tracer : Tracer) (execution : Execution) : Prop :=
  ∀ start stop,
    (start, .entry) ∈ traceStops serial (some tracer) 0 (execution.events 0) →
      (stop, .exit) ∈ traceStops serial (some tracer) 0 (execution.events 0) →
        ∃ back, (execution.events 0)[stop]? = some ⟨.leave start, back⟩

structure FirstCall (execution : Execution) (traced : Addr) (first : Nat) (entered : Arrival) :
    Prop where
  enters : (execution.events 0)[first]? = some ⟨.enter, entered⟩
  atTraced : entered.addr = traced
  before : ∀ event ∈ (execution.events 0).take first, event.now.addr ≠ traced

/-- No event of the activation entered here, from its entry to the last one before its
return, lies at its return address. -/
def ReturnsUnseen (execution : Execution) (first : Nat) : Prop :=
  ∀ close back, (execution.events 0)[close]? = some ⟨.leave first, back⟩ →
    ∀ inside event, first ≤ inside → inside < close →
      (execution.events 0)[inside]? = some event → event.now.addr ≠ back.addr

private theorem stopsAt_elsewhere (serial number looks : Nat) (now : Arrival) (tracer : Tracer)
    (unarmed : armed tracer ≠ some now.addr) :
    stopsAt serial number now looks (some tracer) = ([], some tracer) := by
  cases looks with
  | zero => rfl
  | succ looks => rw [stopsAt, if_neg unarmed]

private theorem armed_init (tracer : Tracer) (init : tracer.stage = .init) (addr : Addr) :
    armed tracer ≠ some addr := by
  rw [armed, init]
  exact Option.some_ne_none _ ∘ Eq.symm

theorem traceStops_quiet (serial number : Nat) (tracer : Option Tracer)
    (quiet : ∀ next, tracer = some next → next.stage = .init) (events : List (Occurrence Arrival)) :
    traceStops serial tracer number events = [] := by
  induction events generalizing number with
  | nil => rfl
  | cons event rest ih =>
      have passes : stopsAt serial number event.now 2 tracer = ([], tracer) := by
        cases tracer with
        | none => rfl
        | some next =>
            exact stopsAt_elsewhere serial number 2 event.now next
              (armed_init next (quiet next rfl) _)
      rw [traceStops, passes]
      exact ih (number + 1)

theorem traceStops_waits (serial number : Nat) (tracer : Tracer) (addr : Addr)
    (waits : armed tracer = some addr) (passed : List (Occurrence Arrival)) (event : Occurrence Arrival)
    (rest : List (Occurrence Arrival)) (elsewhere : ∀ earlier ∈ passed, earlier.now.addr ≠ addr)
    (here : event.now.addr = addr) :
    traceStops serial (some tracer) number (passed ++ event :: rest) =
      let again := stopsAt serial (number + passed.length) event.now 1
        (arrive serial (some tracer) event.now)
      (number + passed.length, tracer.stage) ::
        (again.1 ++ traceStops serial again.2 (number + passed.length + 1) rest) := by
  induction passed generalizing number with
  | nil =>
      rw [List.nil_append, traceStops, stopsAt, if_pos (by rw [waits, here])]
      rfl
  | cons earlier others ih =>
      have apart : armed tracer ≠ some earlier.now.addr := by
        rw [waits]
        intro same
        exact elsewhere earlier List.mem_cons_self (Option.some.inj same).symm
      rw [List.cons_append, traceStops, stopsAt_elsewhere serial number 2 _ tracer apart]
      dsimp only
      rw [List.nil_append,
        ih (number + 1) (fun other member => elsewhere other (List.mem_cons_of_mem earlier member)),
        List.length_cons, Nat.add_right_comm number 1, Nat.add_assoc number]

private theorem getLR_leaveBreakpoint (tracee : Tracee) (addr data : Saved) :
    getLR .all (leaveBreakpoint .all tracee addr data).2 = tracee.regs.lr := by
  have regs := (leaveBreakpoint_all tracee addr data).2.2
  rw [getLR, regs]
  simp [Replies.all, UserRegs.withPc, UserRegs.lr]

theorem arrive_entry (serial : Nat) (tracer : Tracer) (arrival : Arrival)
    (waiting : tracer.stage = .entry) (succeeds : arrival.replies = .all) :
    (scanHeap tracer arrival.surroundings = none ∧ arrive serial (some tracer) arrival = none) ∨
      ((scanHeap tracer arrival.surroundings).isSome = true ∧ ∃ next,
        arrive serial (some tracer) arrival = some next ∧ next.stage = .exit ∧
          armed next = some arrival.returnAddr) := by
  rw [arrive, stopped, handleTraceEvent, waiting, succeeds]
  dsimp only [traceeEntry]
  cases scanHeap tracer arrival.surroundings with
  | none => exact Or.inl ⟨rfl, rfl⟩
  | some maps =>
      right
      dsimp only
      rw [if_neg (by rw [(leaveBreakpoint_all _ _ _).1]; decide), armReturn, getLR_leaveBreakpoint]
      exact ⟨rfl, _, rfl, rfl, rfl⟩

theorem arrive_exit (serial : Nat) (tracer next : Tracer) (arrival : Arrival)
    (waiting : tracer.stage = .exit) (arrived : arrive serial (some tracer) arrival = some next) :
    next.stage = .init := by
  rw [stopped_stage tracer next serial arrival arrived, waiting]
  rfl

theorem exit_last (serial number number' : Nat) (tracer : Tracer) (now : Arrival)
    (waiting : tracer.stage = .exit) (looks : Nat) (events : List (Occurrence Arrival)) :
    (stopsAt serial number now looks (arrive serial (some tracer) now)).1 ++
      traceStops serial (stopsAt serial number now looks (arrive serial (some tracer) now)).2
        number' events = [] := by
  have quiet (next : Tracer) (arrived : arrive serial (some tracer) now = some next) :
      next.stage = .init := arrive_exit serial tracer next now waiting arrived
  have passes : stopsAt serial number now looks (arrive serial (some tracer) now) =
      ([], arrive serial (some tracer) now) := by
    cases arrived : arrive serial (some tracer) now with
    | none => cases looks <;> rfl
    | some next =>
        exact stopsAt_elsewhere serial number looks now next (armed_init next (quiet next arrived) _)
  rw [passes]
  exact traceStops_quiet serial number' _ quiet events

/-- Once it waits for an address that is still to come, the tracer stops at the first
event there and at no other. -/
theorem traceStops_exit (serial first close : Nat) (tracer : Tracer) (addr : Addr)
    (waiting : tracer.stage = .exit) (waits : armed tracer = some addr)
    (events : List (Occurrence Arrival)) (last : Occurrence Arrival) (after : first < close)
    (atClose : events[close]? = some last) (there : last.now.addr = addr) :
    ∃ stop event, first < stop ∧ events[stop]? = some event ∧ event.now.addr = addr ∧
      (∀ inside earlier, first < inside → inside < stop → events[inside]? = some earlier →
        earlier.now.addr ≠ addr) ∧
      traceStops serial (some tracer) (first + 1) (events.drop (first + 1)) = [(stop, .exit)] := by
  have shifted (index : Nat) (behind : first < index) :
      (events.drop (first + 1))[index - (first + 1)]? = events[index]? := by
    rw [List.getElem?_drop]
    congr 1
    omega
  have comes : last ∈ events.drop (first + 1) :=
    List.mem_of_getElem? ((shifted close after).trans atClose)
  obtain ⟨event, found⟩ : ∃ event, (events.drop (first + 1)).find?
      (fun event => decide (event.now.addr = addr)) = some event :=
    Option.isSome_iff_exists.mp (List.find?_isSome.mpr ⟨last, comes, decide_eq_true there⟩)
  obtain ⟨here, passed, rest, split, earlierElsewhere⟩ := List.find?_eq_some_iff_append.mp found
  have elsewhere : ∀ earlier ∈ passed, earlier.now.addr ≠ addr := by
    intro earlier member same
    have differs := earlierElsewhere earlier member
    rw [decide_eq_true same] at differs
    cases differs
  refine ⟨first + 1 + passed.length, event, by omega, ?_, of_decide_eq_true here, ?_, ?_⟩
  · rw [← shifted (first + 1 + passed.length) (by omega), Nat.add_sub_cancel_left, split,
      List.getElem?_append_right (Nat.le_refl _), Nat.sub_self]
    rfl
  · intro inside earlier behind before atInside
    apply elsewhere
    rw [← shifted inside behind, split, List.getElem?_append_left (by omega)] at atInside
    exact List.mem_of_getElem? atInside
  · rw [split, traceStops_waits serial (first + 1) tracer addr waits passed event rest elsewhere
      (of_decide_eq_true here), waiting]
    dsimp only
    rw [exit_last serial _ _ tracer event.now waiting 1 rest]

theorem traceStops_entry (serial : Nat) (tracer : Tracer) (waiting : tracer.stage = .entry)
    (execution : Execution) (first : Nat) (entered : Arrival)
    (call : FirstCall execution tracer.tparams.brkpntAddr.entry.word first entered) :
    traceStops serial (some tracer) 0 (execution.events 0) =
      let again := stopsAt serial first entered 1 (arrive serial (some tracer) entered)
      (first, .entry) :: (again.1 ++ traceStops serial again.2 (first + 1)
        ((execution.events 0).drop (first + 1))) := by
  obtain ⟨inside, here⟩ := List.getElem?_eq_some_iff.mp call.enters
  have split : execution.events 0 = (execution.events 0).take first ++
      ⟨.enter, entered⟩ :: (execution.events 0).drop (first + 1) := by
    rw [← here, ← List.drop_eq_getElem_cons inside, List.take_append_drop]
  have waits : armed tracer = some tracer.tparams.brkpntAddr.entry.word := by
    rw [armed, waiting]
  have stops := traceStops_waits serial 0 tracer _ waits ((execution.events 0).take first)
    ⟨.enter, entered⟩ ((execution.events 0).drop (first + 1)) call.before call.atTraced
  rw [← split, List.length_take, Nat.min_eq_left (Nat.le_of_lt inside), Nat.zero_add,
    waiting] at stops
  exact stops

private theorem measuresOneCall_of_stops (serial : Nat) (tracer : Tracer) (execution : Execution)
    (first stop : Nat) (stops : traceStops serial (some tracer) 0 (execution.events 0) =
      [(first, .entry), (stop, .exit)]) :
    MeasuresOneCall serial tracer execution ↔
      ∃ back, (execution.events 0)[stop]? = some ⟨.leave first, back⟩ := by
  rw [MeasuresOneCall, stops]
  constructor
  · intro measures
    exact measures first stop List.mem_cons_self (List.mem_cons_of_mem _ List.mem_cons_self)
  · intro leaves start ended starts ends
    have startsHere : start = first := by
      rcases List.mem_cons.mp starts with same | later
      · cases same
        rfl
      · cases List.mem_singleton.mp later
    have endsHere : ended = stop := by
      rcases List.mem_cons.mp ends with same | later
      · cases same
      · cases List.mem_singleton.mp later
        rfl
    rw [startsHere, endsHere]
    exact leaves

/-- A function that returns to its own entry is stopped there a second time at once. -/
theorem traceStops_rearmed (serial first : Nat) (tracer : Tracer) (entered : Arrival)
    (waiting : tracer.stage = .exit) (waits : armed tracer = some entered.addr)
    (events : List (Occurrence Arrival)) :
    (stopsAt serial first entered 1 (some tracer)).1 ++
      traceStops serial (stopsAt serial first entered 1 (some tracer)).2 (first + 1) events =
        [(first, .exit)] := by
  have last := exit_last serial first (first + 1) tracer entered waiting 0 events
  rw [stopsAt, if_pos waits, waiting, List.cons_append, last]

/-- The stop behind the entry is the first event there that lies at the return address, so it
is the return exactly if no event before that lies there. -/
theorem measuresOneCall_apart (serial first close : Nat) (tracer next : Tracer)
    (execution : Execution) (entered back : Arrival) (waiting : next.stage = .exit)
    (waits : armed next = some entered.returnAddr) (own : entered.returnAddr ≠ entered.addr)
    (enters : (execution.events 0)[first]? = some ⟨.enter, entered⟩) (after : first < close)
    (leaves : (execution.events 0)[close]? = some ⟨.leave first, back⟩)
    (returns : back.addr = entered.returnAddr)
    (stops : traceStops serial (some tracer) 0 (execution.events 0) =
      (first, .entry) :: traceStops serial (some next) (first + 1)
        ((execution.events 0).drop (first + 1))) :
    MeasuresOneCall serial tracer execution ↔ ReturnsUnseen execution first := by
  obtain ⟨stop, event, behind, atStop, here, elsewhere, ending⟩ :=
    traceStops_exit serial first close next _ waiting waits (execution.events 0)
      ⟨.leave first, back⟩ after leaves returns
  rw [ending] at stops
  rw [measuresOneCall_of_stops serial tracer execution first stop stops]
  constructor
  · rintro ⟨landed, atReturn⟩ close' back' leaves' inside earlier low high atInside
    have same := execution.leave_unique 0 first close' stop back' landed leaves' atReturn
    rw [same] at leaves' high
    rw [atStop] at leaves'
    cases leaves'
    rw [here]
    rcases Nat.lt_or_eq_of_le low with later | atEntry
    · exact elsewhere inside earlier later high atInside
    · rw [← atEntry, enters] at atInside
      cases atInside
      exact own.symm
  · intro unseen
    refine ⟨back, ?_⟩
    rcases Nat.lt_trichotomy stop close with early | same | late
    · have differs := unseen close back leaves stop event (Nat.le_of_lt behind) early atStop
      exact absurd (here.trans returns.symm) differs
    · rw [same]
      exact leaves
    · exact absurd returns (elsewhere close _ after late leaves)

/-- The sample covers the first activation of the traced function exactly when nothing,
its entry included, is executed at its return address before it returns. -/
theorem measuresOneCall_iff (serial : Nat) (tracer : Tracer) (waiting : tracer.stage = .entry)
    (execution : Execution) (first : Nat) (entered : Arrival)
    (call : FirstCall execution tracer.tparams.brkpntAddr.entry.word first entered)
    (succeed : ∀ event ∈ execution.events 0, event.now.replies = .all) :
    MeasuresOneCall serial tracer execution ↔
      ((scanHeap tracer entered.surroundings).isSome = true →
        ReturnsUnseen execution first) := by
  have stops := traceStops_entry serial tracer waiting execution first entered call
  obtain ⟨close, back, after, leaves, returns⟩ :=
    execution.exists_leave 0 first entered call.enters
  rw [Nat.zero_add] at leaves
  rcases arrive_entry serial tracer entered waiting
      (succeed _ (List.mem_of_getElem? call.enters)) with
    ⟨unscanned, died⟩ | ⟨scanned, next, arrived, atExit, waits⟩
  · rw [died] at stops
    dsimp only [stopsAt] at stops
    rw [List.nil_append, traceStops_quiet serial _ none (fun next none => by cases none)] at stops
    rw [MeasuresOneCall, stops, unscanned]
    refine iff_of_true ?_ (fun none => by cases none)
    intro start stop _starts ends
    cases List.mem_singleton.mp ends
  · rw [arrived] at stops
    dsimp only at stops
    by_cases own : entered.returnAddr = entered.addr
    · rw [own] at waits
      rw [traceStops_rearmed serial first next entered atExit waits] at stops
      rw [measuresOneCall_of_stops serial tracer execution first first stops]
      apply iff_of_false
      · rintro ⟨landed, atReturn⟩
        rw [call.enters] at atReturn
        cases atReturn
      · intro unseen
        exact unseen scanned close back leaves first ⟨.enter, entered⟩ (Nat.le_refl first) after
          call.enters (own.symm.trans returns.symm)
    · have unarmed : armed next ≠ some entered.addr := by
        rw [waits]
        exact fun same => own (Option.some.inj same)
      rw [stopsAt_elsewhere serial first 1 entered next unarmed, List.nil_append] at stops
      rw [measuresOneCall_apart serial first close tracer next execution entered back atExit waits
        own call.enters after leaves returns stops]
      exact ⟨fun unseen _scanned => unseen, fun unseen => unseen scanned⟩

def sampleMoment (addr : Addr) (lr : Word) : Arrival :=
  { sampleArrival with cause := .breakpoint, addr := addr, regs := ⟨fun _register => lr⟩ }

def sampleWaiting : Tracer := { sampleTracer with stage := .entry }

def sampleExecution : Execution :=
  .call (sampleMoment 0x8000 0x7004) (.step (sampleMoment 0x8004 0x7004) .done)
    (sampleMoment 0x7004 0x7004) rfl .done

theorem measuresOneCall_iff_sample : MeasuresOneCall 0 sampleWaiting sampleExecution := by
  apply (measuresOneCall_iff 0 sampleWaiting rfl sampleExecution 0 (sampleMoment 0x8000 0x7004)
    ⟨rfl, rfl, fun _event none => by cases none⟩ ?_).mpr
  · intro _scanned close back leaves inside event low high atInside
    have same := sampleExecution.leave_unique 0 0 close 2 back (sampleMoment 0x7004 0x7004) leaves
      rfl
    rw [same] at leaves high
    cases leaves
    have place : inside = 0 ∨ inside = 1 := by omega
    rcases place with rfl | rfl <;> cases atInside <;> decide
  · decide

def sampleReentry : Execution :=
  .call (sampleMoment 0x9000 0x7004)
    (.call (sampleMoment 0x8000 0x9008)
      (.call (sampleMoment 0x9000 0x8008)
        (.call (sampleMoment 0x8000 0x9008) .done (sampleMoment 0x9008 0x9008) rfl .done)
        (sampleMoment 0x8008 0x8008) rfl .done)
      (sampleMoment 0x9008 0x9008) rfl .done)
    (sampleMoment 0x7004 0x7004) rfl .done

theorem reentry_ends_sample :
    FirstCall sampleReentry sampleWaiting.tparams.brkpntAddr.entry.word 1
        (sampleMoment 0x8000 0x9008) ∧
      (∀ event ∈ sampleReentry.events 0, event.now.replies = .all) ∧
      traceStops 0 (some sampleWaiting) 0 (sampleReentry.events 0) = [(1, .entry), (4, .exit)] ∧
      (sampleReentry.events 0)[4]? = some ⟨.leave 3, sampleMoment 0x9008 0x9008⟩ ∧
      ¬ MeasuresOneCall 0 sampleWaiting sampleReentry := by
  have stops : traceStops 0 (some sampleWaiting) 0 (sampleReentry.events 0) =
      [(1, .entry), (4, .exit)] := rfl
  refine ⟨⟨rfl, rfl, ?_⟩, by decide, stops, rfl, ?_⟩
  · intro event member
    rw [List.mem_singleton.mp member]
    decide
  · intro measures
    obtain ⟨back, leaves⟩ :=
      (measuresOneCall_of_stops 0 sampleWaiting sampleReentry 1 4 stops).mp measures
    cases leaves

end BlackboxProfiling.Functime
