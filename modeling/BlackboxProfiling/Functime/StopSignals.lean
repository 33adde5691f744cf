import BlackboxProfiling.EventRun
import BlackboxProfiling.Functime.TraceEvent

/-!
Stops the tracer did not ask for. The handler takes every stop for the one its
stage waits for and resumes the tracee without a signal.
-/

namespace BlackboxProfiling.Functime

open EventRun

/-- The stop the comments of the three cases speak of. -/
def Awaited (tracer : Tracer) (arrival : Arrival) : Prop :=
  match tracer.stage with
  | .init => arrival.cause = .exec
  | .entry =>
      arrival.cause = .breakpoint ∧ arrival.addr = tracer.tparams.brkpntAddr.entry.word
  | .exit => arrival.cause = .breakpoint ∧ arrival.addr = tracer.tparams.brkpntAddr.exit.word

def PassedOn (tracer : Tracer) (arrival : Arrival) (handled : Handled) : Prop :=
  ∃ next, handled.tracer = some next ∧ next.stage = tracer.stage ∧
    next.samples = tracer.samples ∧ next.requests = tracer.requests ∧
    handled.tracee.text = arrival.text ∧ handled.tracee.regs.pc = arrival.regs.pc ∧
    handled.signal = arrival.signal

def OnlyAwaitedAdvances (serial : Nat) (tracer : Tracer) (arrival : Arrival) : Prop :=
  (∀ next, (stopped tracer serial arrival).tracer = some next →
    next.stage ≠ tracer.stage → Awaited tracer arrival) ∧
  (¬ Awaited tracer arrival → PassedOn tracer arrival (stopped tracer serial arrival))

private theorem onlyAwaitedAdvances_iff (serial : Nat) (tracer : Tracer) (arrival : Arrival) :
    OnlyAwaitedAdvances serial tracer arrival ↔ Awaited tracer arrival := by
  constructor
  · rintro ⟨_left, passed⟩
    by_cases awaited : Awaited tracer arrival
    · exact awaited
    · obtain ⟨next, survived, sameStage, _rest⟩ := passed awaited
      have moved := stopped_stage tracer next serial arrival survived
      exact absurd (moved.symm.trans sameStage) tracer.stage.next_ne
  · intro awaited
    exact ⟨fun _next _survived _moved => awaited, fun foreign => absurd awaited foreign⟩

/-- Over any sequence of stops the tracer behaves as its cases say exactly when
every stop that reaches it is the one its stage waits for. -/
theorem onlyAwaited_run_iff (serial : Nat) (tracer : Tracer) (arrivals : List Arrival) :
    EachStep (arrive serial) (WhileTraced (OnlyAwaitedAdvances serial)) (some tracer) arrivals ↔
      EachStep (arrive serial) (WhileTraced Awaited) (some tracer) arrivals := by
  apply eachStep_congr
  intro current arrival
  constructor
  · intro holds present same
    exact (onlyAwaitedAdvances_iff serial present arrival).mp (holds present same)
  · intro holds present same
    exact (onlyAwaitedAdvances_iff serial present arrival).mpr (holds present same)

def sampleAlarm : Arrival :=
  { sampleArrival with cause := .other, signal := 14, addr := 0x9000
                       regs := ⟨fun _register => 0x9000⟩ }

theorem alarm_taken_for_breakpoint :
    ∃ waiting, arrive 0 (some sampleTracer) sampleArrival = some waiting ∧
      waiting.stage = .entry ∧
      (stopped waiting 0 sampleAlarm).tracee.regs.pc = 0x8000 ∧
      (stopped waiting 0 sampleAlarm).signal = 0 ∧
      ¬ EachStep (arrive 0) (WhileTraced (OnlyAwaitedAdvances 0)) (some sampleTracer)
        [sampleArrival, sampleAlarm] := by
  refine ⟨_, rfl, rfl, rfl, rfl, ?_⟩
  rintro ⟨_first, second, _rest⟩
  have awaited := (onlyAwaitedAdvances_iff 0 _ sampleAlarm).mp (second _ rfl)
  exact absurd awaited.1 (by decide)

end BlackboxProfiling.Functime
