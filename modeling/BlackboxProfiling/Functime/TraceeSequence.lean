import BlackboxProfiling.EventRun
import BlackboxProfiling.Functime.TraceEvent

/-!
Tracees one after the other. Nothing resets the static stage when a tracee exits,
so the next one is handled from wherever the last one left off. Serial numbers
tell the tracees apart, and every word the tracer keeps carries the serial number
of the tracee it was read from.
-/

namespace BlackboxProfiling.Functime

open EventRun

/-- One round of the inner loops of `main`: what it stores before it starts the
tracee, and the stops of the tracee up to its exit. -/
structure TraceeRun where
  pid : Nat
  kernelParams : BothMultiple.Params
  newRound : Bool
  arrivals : List Arrival

def startTracee (tracer : Tracer) (tracee : TraceeRun) : Tracer :=
  { tracer with
    tparams := { tracer.tparams with pid := tracee.pid }
    kernelParams := tracee.kernelParams
    samples := if tracee.newRound then 0 else tracer.samples }

def exited (tracer : Tracer) : Tracer := { tracer with done := true }

def handleTraceeSignals (serial : Nat) (tracer : Tracer) (arrivals : List Arrival) :
    Option Tracer :=
  (run (arrive serial) (some tracer) arrivals).map (fun last => { exited last with done := false })

def traceAll (serial : Nat) (tracer : Tracer) : List TraceeRun → Option Tracer
  | [] => some tracer
  | tracee :: rest =>
      match handleTraceeSignals serial (startTracee tracer tracee) tracee.arrivals with
      | none => none
      | some next => traceAll (serial + 1) next rest

/-- Every word written into the tracee was read from it or from no tracee. -/
def OwnWrites (serial : Nat) (tracer : Tracer) (arrival : Arrival) : Prop :=
  ∀ saved ∈ (stopped tracer serial arrival).tracee.written,
    saved.source = none ∨ saved.source = some serial

def CleanStart (serial : Nat) (tracer : Tracer) (arrivals : List Arrival) : Prop :=
  (arrivals ≠ [] → tracer.stage = .init) ∧
    EachStep (arrive serial) (WhileTraced (OwnWrites serial)) (some tracer) arrivals

def CleanStarts (serial : Nat) (tracer : Tracer) : List TraceeRun → Prop
  | [] => True
  | tracee :: rest =>
      CleanStart serial (startTracee tracer tracee) tracee.arrivals ∧
        ∀ next, handleTraceeSignals serial (startTracee tracer tracee) tracee.arrivals = some next →
          CleanStarts (serial + 1) next rest

/-- Every tracee that another stopping tracee follows makes a multiple of three stops. -/
def EveryThird (tracees : List TraceeRun) : Prop :=
  tracees.Pairwise
    (fun earlier later => later.arrivals ≠ [] → earlier.arrivals.length % 3 = 0)

private theorem TraceeStage.iterate_next (stage : TraceeStage) (count : Nat) :
    TraceeStage.next^[count] stage = stage ↔ count % 3 = 0 := by
  match count with
  | 0 => exact iff_of_true rfl rfl
  | 1 => exact iff_of_false stage.next_ne (by decide)
  | 2 => exact iff_of_false (by cases stage <;> decide) (by decide)
  | rest + 3 =>
      have period : TraceeStage.next^[rest + 3] stage = TraceeStage.next^[rest] stage := by
        rw [Function.iterate_add_apply]
        congr 1
        cases stage <;> rfl
      rw [period, Nat.add_mod_right]
      exact TraceeStage.iterate_next stage rest

private theorem run_arrive_none (serial : Nat) (arrivals : List Arrival) :
    run (arrive serial) none arrivals = none := by
  induction arrivals with
  | nil => rfl
  | cons arrival rest ih => exact ih

private theorem eachStep_none (serial : Nat) (holds : Tracer → Arrival → Prop)
    (arrivals : List Arrival) :
    EachStep (arrive serial) (WhileTraced holds) none arrivals := by
  induction arrivals with
  | nil => trivial
  | cons arrival rest ih => exact ⟨fun _current absent => (nomatch absent), ih⟩

private theorem run_arrive_stage (serial : Nat) (tracer last : Tracer) (arrivals : List Arrival)
    (survived : run (arrive serial) (some tracer) arrivals = some last) :
    last.stage = TraceeStage.next^[arrivals.length] tracer.stage := by
  induction arrivals generalizing tracer with
  | nil =>
      cases survived
      rfl
  | cons arrival rest ih =>
      have rest_survived : run (arrive serial) (stopped tracer serial arrival).tracer rest =
          some last := survived
      cases after : (stopped tracer serial arrival).tracer with
      | none =>
          rw [after, run_arrive_none] at rest_survived
          cases rest_survived
      | some next =>
          rw [after] at rest_survived
          rw [ih next rest_survived, stopped_stage tracer next serial arrival after]
          rfl

private theorem handleTraceeSignals_stage (serial : Nat) (tracer next : Tracer) (tracee : TraceeRun)
    (survived : handleTraceeSignals serial (startTracee tracer tracee) tracee.arrivals =
      some next) :
    next.stage = TraceeStage.next^[tracee.arrivals.length] tracer.stage := by
  obtain ⟨last, ran, rfl⟩ := Option.map_eq_some_iff.mp survived
  exact run_arrive_stage serial (startTracee tracer tracee) last tracee.arrivals ran

def HoldsOwn (serial : Nat) (tracer : Tracer) : Prop :=
  tracer.tparams.brkpntAddr.entry.source = none ∧
    match tracer.stage with
    | .init => True
    | .entry => tracer.tparams.brkpntData.entry.source = some serial
    | .exit =>
        tracer.tparams.brkpntData.exit.source = some serial ∧
          tracer.tparams.brkpntAddr.exit.source = some serial

private theorem stopped_written (serial : Nat) (tracer : Tracer) (arrival : Arrival)
    (own : HoldsOwn serial tracer) : OwnWrites serial tracer arrival := by
  obtain ⟨symbol, kept⟩ := own
  intro saved member
  unfold stopped handleTraceEvent at member
  cases stage : tracer.stage with
  | init =>
      rw [stage] at member
      dsimp only [traceeInit] at member
      rw [resume_tracee] at member
      rcases setBreakpoint_written _ _ _ saved member with earlier | armed
      · cases earlier
      · exact Or.inl (by rw [armed])
  | entry =>
      rw [stage] at member kept
      dsimp only [traceeEntry] at member
      have restored (here : saved ∈ (leaveBreakpoint arrival.replies
          ⟨serial, arrival.text, arrival.regs, []⟩ tracer.tparams.brkpntAddr.entry
          tracer.tparams.brkpntData.entry).2.written) :
          saved.source = none ∨ saved.source = some serial := by
        rcases leaveBreakpoint_written _ _ _ _ saved here with earlier | data | addr
        · cases earlier
        · exact Or.inr (by rw [data, kept])
        · exact Or.inl (by rw [addr, symbol])
      split at member
      · cases member
      · split at member
        · exact restored member
        · dsimp only [armReturn] at member
          rw [resume_tracee] at member
          rcases setBreakpoint_written _ _ _ saved member with earlier | armed
          · exact restored earlier
          · exact Or.inl (by rw [armed])
  | exit =>
      rw [stage] at member kept
      dsimp only [traceeExit] at member
      have here : saved ∈ (leaveBreakpoint arrival.replies
          ⟨serial, arrival.text, arrival.regs, []⟩ tracer.tparams.brkpntAddr.exit
          tracer.tparams.brkpntData.exit).2.written := by
        split at member
        · exact member
        · rw [resume_tracee] at member
          exact member
      rcases leaveBreakpoint_written _ _ _ _ saved here with earlier | data | addr
      · cases earlier
      · exact Or.inr (by rw [data, kept.1])
      · exact Or.inr (by rw [addr, kept.2])

private theorem stopped_holdsOwn (serial : Nat) (tracer next : Tracer) (arrival : Arrival)
    (own : HoldsOwn serial tracer) (survived : (stopped tracer serial arrival).tracer = some next) :
    HoldsOwn serial next := by
  obtain ⟨symbol, _kept⟩ := own
  unfold stopped handleTraceEvent at survived
  cases stage : tracer.stage with
  | init =>
      rw [stage] at survived
      rw [resume_tracer _ _ _ _ survived]
      exact ⟨symbol, setBreakpoint_source _ _ _⟩
  | entry =>
      rw [stage] at survived
      obtain ⟨maps, same⟩ := traceeEntry_some tracer next _ _ _ survived
      have sameSerial := leaveBreakpoint_serial arrival.replies
        ⟨serial, arrival.text, arrival.regs, []⟩ tracer.tparams.brkpntAddr.entry
        tracer.tparams.brkpntData.entry
      rw [same] at survived
      rw [resume_tracer _ _ _ _ survived]
      refine ⟨symbol, ?_, congrArg some sameSerial⟩
      exact (setBreakpoint_source _ _ _).trans (congrArg some sameSerial)
  | exit =>
      rw [stage] at survived
      rw [traceeExit_some tracer next _ _ _ survived] at survived
      rw [resume_tracer _ _ _ _ survived]
      exact ⟨symbol, trivial⟩

theorem holdsOwn_run (serial : Nat) (tracer : Tracer) (arrivals : List Arrival)
    (own : HoldsOwn serial tracer) :
    EachStep (arrive serial) (WhileTraced (OwnWrites serial)) (some tracer) arrivals ∧
      ∀ last, run (arrive serial) (some tracer) arrivals = some last → HoldsOwn serial last := by
  induction arrivals generalizing tracer with
  | nil =>
      refine ⟨trivial, ?_⟩
      intro last ran
      cases ran
      exact own
  | cons arrival rest ih =>
      have first : WhileTraced (OwnWrites serial) (some tracer) arrival := by
        intro current same
        cases same
        exact stopped_written serial tracer arrival own
      cases after : (stopped tracer serial arrival).tracer with
      | none =>
          have step : arrive serial (some tracer) arrival = none := after
          refine ⟨⟨first, ?_⟩, ?_⟩
          · rw [step]
            exact eachStep_none serial _ rest
          · intro last ran
            have ended : run (arrive serial) (arrive serial (some tracer) arrival) rest =
                some last := ran
            rw [step, run_arrive_none] at ended
            cases ended
      | some next =>
          have step : arrive serial (some tracer) arrival = some next := after
          have later := ih next (stopped_holdsOwn serial tracer next arrival own after)
          refine ⟨⟨first, ?_⟩, ?_⟩
          · rw [step]
            exact later.1
          · intro last ran
            apply later.2
            rw [← step]
            exact ran

private theorem handleTraceeSignals_symbol (serial : Nat) (tracer next : Tracer) (tracee : TraceeRun)
    (own : HoldsOwn serial (startTracee tracer tracee))
    (survived : handleTraceeSignals serial (startTracee tracer tracee) tracee.arrivals =
      some next) :
    next.tparams.brkpntAddr.entry.source = none := by
  obtain ⟨last, ran, rfl⟩ := Option.map_eq_some_iff.mp survived
  exact ((holdsOwn_run serial (startTracee tracer tracee) tracee.arrivals own).2 last ran).1

private theorem cleanStarts_of_everyThird (serial : Nat) (tracer : Tracer) (tracees : List TraceeRun)
    (symbol : tracer.tparams.brkpntAddr.entry.source = none)
    (fresh : (∃ tracee ∈ tracees, tracee.arrivals ≠ []) → tracer.stage = .init)
    (third : EveryThird tracees) : CleanStarts serial tracer tracees := by
  induction tracees generalizing serial tracer with
  | nil => trivial
  | cons tracee rest ih =>
      obtain ⟨here, later⟩ := List.pairwise_cons.mp third
      by_cases stops : tracee.arrivals = []
      · have same : handleTraceeSignals serial (startTracee tracer tracee) tracee.arrivals =
            some { exited (startTracee tracer tracee) with done := false } := by
          rw [stops]
          rfl
        refine ⟨⟨fun some_stop => absurd stops some_stop, ?_⟩, ?_⟩
        · rw [stops]
          trivial
        · intro next survived
          rw [same] at survived
          have nextSymbol : next.tparams.brkpntAddr.entry.source = none := by
            rw [← Option.some.inj survived]
            exact symbol
          apply ih (serial + 1) next nextSymbol _ later
          rw [← Option.some.inj survived]
          rintro ⟨other, member, otherStops⟩
          exact fresh ⟨other, List.mem_cons_of_mem _ member, otherStops⟩
      · have atInit : (startTracee tracer tracee).stage = .init :=
          fresh ⟨tracee, List.mem_cons_self, stops⟩
        have own : HoldsOwn serial (startTracee tracer tracee) := by
          refine ⟨symbol, ?_⟩
          rw [atInit]
          trivial
        refine ⟨⟨fun _stops => atInit, (holdsOwn_run serial _ tracee.arrivals own).1⟩, ?_⟩
        intro next survived
        apply ih (serial + 1) next _ _ later
        · exact handleTraceeSignals_symbol serial tracer next tracee own survived
        · rintro ⟨other, member, otherStops⟩
          have period := (TraceeStage.iterate_next tracer.stage tracee.arrivals.length).mpr
            (here other member otherStops)
          rw [handleTraceeSignals_stage serial tracer next tracee survived, period]
          exact atInit

private theorem cleanStarts_stage (serial : Nat) (tracer last : Tracer) (tracees : List TraceeRun)
    (clean : CleanStarts serial tracer tracees)
    (survived : traceAll serial tracer tracees = some last)
    (stops : ∃ tracee ∈ tracees, tracee.arrivals ≠ []) : tracer.stage = .init := by
  induction tracees generalizing serial tracer with
  | nil =>
      obtain ⟨tracee, member, _stops⟩ := stops
      cases member
  | cons tracee rest ih =>
      by_cases here : tracee.arrivals = []
      · simp only [traceAll] at survived
        split at survived
        · cases survived
        · rename_i next handled
          have stage : next.stage = tracer.stage := by
            rw [handleTraceeSignals_stage serial tracer next tracee handled, here]
            rfl
          rw [← stage]
          apply ih (serial + 1) next (clean.2 next handled) survived
          obtain ⟨other, member, otherStops⟩ := stops
          rcases List.mem_cons.mp member with same | later
          · rw [same] at otherStops
            exact absurd here otherStops
          · exact ⟨other, later, otherStops⟩
      · exact clean.1.1 here

private theorem everyThird_of_cleanStarts (serial : Nat) (tracer last : Tracer)
    (tracees : List TraceeRun) (clean : CleanStarts serial tracer tracees)
    (survived : traceAll serial tracer tracees = some last) : EveryThird tracees := by
  induction tracees generalizing serial tracer with
  | nil => exact List.Pairwise.nil
  | cons tracee rest ih =>
      simp only [traceAll] at survived
      split at survived
      · cases survived
      · rename_i next handled
        have restClean := clean.2 next handled
        apply List.pairwise_cons.mpr
        refine ⟨?_, ih (serial + 1) next restClean survived⟩
        intro other member otherStops
        have nextStage := cleanStarts_stage (serial + 1) next last rest restClean survived
          ⟨other, member, otherStops⟩
        have stage := handleTraceeSignals_stage serial tracer next tracee handled
        by_cases stops : tracee.arrivals = []
        · rw [stops]
          rfl
        · have atInit : tracer.stage = .init := clean.1.1 stops
          apply (TraceeStage.iterate_next tracer.stage tracee.arrivals.length).mp
          rw [← stage, nextStage, atInit]

/-- From a fresh tracer every tracee starts clean if all tracees but the last make
a multiple of three stops, and in a run the tracer survives only then. -/
theorem tracees_start_clean_iff (tracer : Tracer) (fresh : tracer.stage = .init)
    (symbol : tracer.tparams.brkpntAddr.entry.source = none) (tracees : List TraceeRun) :
    (EveryThird tracees → CleanStarts 0 tracer tracees) ∧
      ∀ last, traceAll 0 tracer tracees = some last →
        (CleanStarts 0 tracer tracees ↔ EveryThird tracees) := by
  have enough := cleanStarts_of_everyThird 0 tracer tracees symbol (fun _stops => fresh)
  refine ⟨enough, ?_⟩
  intro last survived
  exact ⟨fun clean => everyThird_of_cleanStarts 0 tracer last tracees clean survived, enough⟩

def sampleTracee (stops : Nat) : TraceeRun :=
  { pid := 7
    kernelParams := { buff := [0], shouldSkip := false, pid := 0 }
    newRound := true
    arrivals := List.replicate stops sampleArrival }

theorem tracees_start_clean_iff_sample :
    CleanStarts 0 sampleTracer [sampleTracee 3, sampleTracee 3] :=
  (tracees_start_clean_iff sampleTracer rfl rfl [sampleTracee 3, sampleTracee 3]).1
    (List.pairwise_pair.mpr (fun _stops => rfl))

theorem next_tracee_gets_foreign_word :
    ¬ CleanStarts 0 sampleTracer [sampleTracee 1, sampleTracee 1] := by
  intro clean
  have second := (clean.2 _ rfl).1.1 (List.cons_ne_nil _ _)
  exact absurd second (by decide)

end BlackboxProfiling.Functime
