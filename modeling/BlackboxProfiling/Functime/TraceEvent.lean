import BlackboxProfiling.Functime.ProcMaps
import BlackboxProfiling.Functime.Ptrace

/-!
`handle_trace_event` and the loop body of `child_exit_handler`. The handler looks
at its static stage only: every stop it survives moves the stage on, from the exec
trap over the entry breakpoint to the return breakpoint and back.
-/

namespace BlackboxProfiling.Functime

open ByteMemory

inductive TraceeStage where
  | entry
  | exit
  | init
  deriving DecidableEq, Repr

def TraceeStage.next : TraceeStage → TraceeStage
  | .init => .entry
  | .entry => .exit
  | .exit => .init

structure Stages where
  entry : Saved
  exit : Saved
  deriving DecidableEq, Repr

structure TraceParams where
  pid : Nat
  brkpntData : Stages
  brkpntAddr : Stages
  tStart : Word
  tEnd : Word

/-- The statics and globals of the tracer. `requests` are the records it has
written to `/proc/memprofile`. -/
structure Tracer where
  stage : TraceeStage
  tparams : TraceParams
  kernelParams : BothMultiple.Params
  maps : MapsTable
  samples : Word
  requests : List BothMultiple.Params
  done : Bool

structure Surroundings where
  mapsLines : List MapsLine
  procOpens : Bool
  cycles : Word

/-- The result of one handler run: no tracer when it has exited or died, and the
signal given to `PTRACE_CONT`, zero for none. -/
structure Handled where
  tracee : Tracee
  tracer : Option Tracer
  signal : Nat

def ended (tracee : Tracee) : Handled := ⟨tracee, none, 0⟩

def resume (replies : Replies) (tracee : Tracee) (tracer : Tracer) : Handled :=
  if replies.cont = false then ended tracee else ⟨tracee, some tracer, 0⟩

def traceeInit (tracer : Tracer) (tracee : Tracee) (replies : Replies) : Handled :=
  let armed := setBreakpoint replies tracee tracer.tparams.brkpntAddr.entry.word
  let tparams :=
    { tracer.tparams with brkpntData := { tracer.tparams.brkpntData with entry := armed.1 } }
  resume replies armed.2 { tracer with stage := .entry, tparams := tparams }

def scanHeap (tracer : Tracer) (surroundings : Surroundings) : Option MapsTable :=
  if tracer.maps.heapSize = 0 then readProcMapsFile surroundings.mapsLines tracer.maps
  else some tracer.maps

def writeRequest (tracer : Tracer) (surroundings : Surroundings) : Tracer :=
  let kernelParams := { tracer.kernelParams with pid := tracer.tparams.pid }
  { tracer with
    kernelParams := kernelParams
    requests :=
      if surroundings.procOpens then tracer.requests ++ [kernelParams] else tracer.requests }

def armReturn (tracer : Tracer) (tracee : Tracee) (replies : Replies)
    (surroundings : Surroundings) : Handled :=
  let returnAddr : Saved := ⟨getLR replies tracee &&& armIsaMask, some tracee.serial⟩
  let armed := setBreakpoint replies tracee returnAddr.word
  let tparams :=
    { tracer.tparams with
      brkpntAddr := { tracer.tparams.brkpntAddr with exit := returnAddr }
      brkpntData := { tracer.tparams.brkpntData with exit := armed.1 }
      tStart := surroundings.cycles }
  resume replies armed.2 { tracer with stage := .exit, tparams := tparams }

def traceeEntry (tracer : Tracer) (tracee : Tracee) (replies : Replies)
    (surroundings : Surroundings) : Handled :=
  match scanHeap tracer surroundings with
  | none => ended tracee
  | some maps =>
      let left := leaveBreakpoint replies tracee tracer.tparams.brkpntAddr.entry
        tracer.tparams.brkpntData.entry
      if left.1 = false then ended left.2
      else armReturn (writeRequest { tracer with maps := maps } surroundings) left.2 replies
        surroundings

def traceeExit (tracer : Tracer) (tracee : Tracee) (replies : Replies)
    (surroundings : Surroundings) : Handled :=
  let tparams := { tracer.tparams with tEnd := surroundings.cycles }
  let samples := tracer.samples + (tparams.tEnd - tparams.tStart)
  let left := leaveBreakpoint replies tracee tparams.brkpntAddr.exit tparams.brkpntData.exit
  if left.1 = false then ended left.2
  else resume replies left.2 { tracer with stage := .init, tparams := tparams, samples := samples }

/-- The status word of the stop is printed and not looked at otherwise. -/
def handleTraceEvent (tracer : Tracer) (tracee : Tracee) (_wstat : Nat) (replies : Replies)
    (surroundings : Surroundings) : Handled :=
  match tracer.stage with
  | .init => traceeInit tracer tracee replies
  | .entry => traceeEntry tracer tracee replies surroundings
  | .exit => traceeExit tracer tracee replies surroundings

inductive StopCause where
  | exec
  | breakpoint
  | other
  deriving DecidableEq, Repr

structure Arrival where
  cause : StopCause
  signal : Nat
  addr : Addr
  text : Memory 32
  regs : UserRegs
  replies : Replies
  surroundings : Surroundings

def stopped (tracer : Tracer) (serial : Nat) (arrival : Arrival) : Handled :=
  handleTraceEvent tracer ⟨serial, arrival.text, arrival.regs, []⟩ arrival.signal arrival.replies
    arrival.surroundings

def arrive (serial : Nat) (tracer : Option Tracer) (arrival : Arrival) : Option Tracer :=
  match tracer with
  | none => none
  | some tracer => (stopped tracer serial arrival).tracer

def WhileTraced (holds : Tracer → Arrival → Prop) (tracer : Option Tracer) (arrival : Arrival) :
    Prop :=
  ∀ current, tracer = some current → holds current arrival

theorem resume_tracer (replies : Replies) (tracee : Tracee) (tracer next : Tracer)
    (resumed : (resume replies tracee tracer).tracer = some next) : next = tracer := by
  unfold resume at resumed
  split at resumed
  · cases resumed
  · exact (Option.some.inj resumed).symm

@[simp] theorem resume_tracee (replies : Replies) (tracee : Tracee) (tracer : Tracer) :
    (resume replies tracee tracer).tracee = tracee := by
  unfold resume
  split <;> rfl

theorem traceeEntry_some (tracer next : Tracer) (tracee : Tracee) (replies : Replies)
    (surroundings : Surroundings)
    (survived : (traceeEntry tracer tracee replies surroundings).tracer = some next) :
    ∃ maps, traceeEntry tracer tracee replies surroundings =
      armReturn (writeRequest { tracer with maps := maps } surroundings)
        (leaveBreakpoint replies tracee tracer.tparams.brkpntAddr.entry
          tracer.tparams.brkpntData.entry).2 replies surroundings := by
  dsimp only [traceeEntry] at survived ⊢
  split at survived
  · cases survived
  · rename_i maps _scanned
    split at survived
    · cases survived
    · rename_i left
      exact ⟨maps, if_neg left⟩

theorem traceeExit_some (tracer next : Tracer) (tracee : Tracee) (replies : Replies)
    (surroundings : Surroundings)
    (survived : (traceeExit tracer tracee replies surroundings).tracer = some next) :
    traceeExit tracer tracee replies surroundings =
      resume replies
        (leaveBreakpoint replies tracee tracer.tparams.brkpntAddr.exit
          tracer.tparams.brkpntData.exit).2
        { tracer with
          stage := .init
          tparams := { tracer.tparams with tEnd := surroundings.cycles }
          samples := tracer.samples + (surroundings.cycles - tracer.tparams.tStart) } := by
  dsimp only [traceeExit] at survived ⊢
  split at survived
  · cases survived
  · rename_i left
    rw [if_neg left]

/-- Every stop the tracer survives moves the stage on, whatever the stop was. -/
theorem handleTraceEvent_stage (tracer next : Tracer) (tracee : Tracee) (wstat : Nat)
    (replies : Replies) (surroundings : Surroundings)
    (survived : (handleTraceEvent tracer tracee wstat replies surroundings).tracer = some next) :
    next.stage = tracer.stage.next := by
  unfold handleTraceEvent at survived
  cases stage : tracer.stage with
  | init =>
      rw [stage] at survived
      rw [resume_tracer _ _ _ _ survived]
      rfl
  | entry =>
      rw [stage] at survived
      obtain ⟨maps, same⟩ := traceeEntry_some tracer next tracee _ _ survived
      rw [same] at survived
      rw [resume_tracer _ _ _ _ survived]
      rfl
  | exit =>
      rw [stage] at survived
      rw [traceeExit_some tracer next tracee _ _ survived] at survived
      rw [resume_tracer _ _ _ _ survived]
      rfl

theorem stopped_stage (tracer next : Tracer) (serial : Nat) (arrival : Arrival)
    (survived : (stopped tracer serial arrival).tracer = some next) :
    next.stage = tracer.stage.next :=
  handleTraceEvent_stage tracer next _ _ _ _ survived

theorem TraceeStage.next_ne (stage : TraceeStage) : stage.next ≠ stage := by
  cases stage <;> decide

def sampleTracer : Tracer :=
  { stage := .init
    tparams :=
      { pid := 0
        brkpntData := ⟨⟨0, none⟩, ⟨0, none⟩⟩
        brkpntAddr := ⟨⟨0x8000, none⟩, ⟨0, none⟩⟩
        tStart := 0
        tEnd := 0 }
    kernelParams := { buff := [0], shouldSkip := false, pid := 0 }
    maps := emptyMapsTable
    samples := 0
    requests := []
    done := false }

def sampleArrival : Arrival :=
  { cause := .exec
    signal := 5
    addr := 0x7000
    text := fun _place => 0
    regs := ⟨fun _register => 0x7000⟩
    replies := .all
    surroundings := { mapsLines := [], procOpens := true, cycles := 0 } }

end BlackboxProfiling.Functime
