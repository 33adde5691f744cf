import BlackboxProfiling.EventRun
import BlackboxProfiling.Functime.TraceEvent

/-!
The calls that handler runs make on the text of the tracees, in order, and a watch
over them. A failed `set_breakpoint` leaves `-1` in the slot of a saved word, and the
next stop writes what the slot holds.
-/

namespace BlackboxProfiling.Functime

open ByteMemory EventRun

structure Reading where
  serial : Nat
  addr : Addr
  word : Word
  deriving DecidableEq, Repr

/-- The calls on the text that succeed: the two of `set_breakpoint`, and the write that
puts a saved word back. `useLR` stands where the result of `get_LR` becomes a
breakpoint address, and tells whether the registers were read. -/
inductive TextCall where
  | peek (reading : Reading)
  | plant (serial : Nat) (addr : Addr) (word : Word)
  | restore (serial : Nat) (addr : Addr) (word : Word)
  | useLR (registersRead : Bool)
  deriving DecidableEq, Repr

def setBreakpointCalls (replies : Replies) (tracee : Tracee) (addr : Addr) : List TextCall :=
  let data := readWord tracee.text addr
  if replies.peek = false then []
  else if data = failed then [.peek ⟨tracee.serial, addr, data⟩]
  else if replies.poke = false then [.peek ⟨tracee.serial, addr, data⟩]
  else [.peek ⟨tracee.serial, addr, data⟩, .plant tracee.serial addr brkpointInstr]

def leaveBreakpointCalls (replies : Replies) (tracee : Tracee) (addr data : Saved) :
    List TextCall :=
  if replies.restore = false then [] else [.restore tracee.serial addr.word data.word]

def armReturnCalls (replies : Replies) (tracee : Tracee) : List TextCall :=
  .useLR replies.lrGetregs ::
    setBreakpointCalls replies tracee (getLR replies tracee &&& armIsaMask)

def traceeEntryCalls (tracer : Tracer) (tracee : Tracee) (replies : Replies)
    (surroundings : Surroundings) : List TextCall :=
  match scanHeap tracer surroundings with
  | none => []
  | some _maps =>
      let left := leaveBreakpoint replies tracee tracer.tparams.brkpntAddr.entry
        tracer.tparams.brkpntData.entry
      leaveBreakpointCalls replies tracee tracer.tparams.brkpntAddr.entry
          tracer.tparams.brkpntData.entry ++
        if left.1 = false then [] else armReturnCalls replies left.2

def handleTraceEventCalls (tracer : Tracer) (tracee : Tracee) (replies : Replies)
    (surroundings : Surroundings) : List TextCall :=
  match tracer.stage with
  | .init => setBreakpointCalls replies tracee tracer.tparams.brkpntAddr.entry.word
  | .entry => traceeEntryCalls tracer tracee replies surroundings
  | .exit =>
      leaveBreakpointCalls replies tracee tracer.tparams.brkpntAddr.exit
        tracer.tparams.brkpntData.exit

def TextCall.effect (text : Memory 32) : TextCall → Memory 32
  | .peek _reading => text
  | .plant _serial addr word => writeWord text addr word
  | .restore _serial addr word => writeWord text addr word
  | .useLR _registersRead => text

private theorem setBreakpointCalls_effect (replies : Replies) (tracee : Tracee) (addr : Addr) :
    (setBreakpointCalls replies tracee addr).foldl TextCall.effect tracee.text =
      (setBreakpoint replies tracee addr).2.text := by
  dsimp only [setBreakpointCalls, setBreakpoint, peekText, pokeText]
  cases replies.peek with
  | false => rfl
  | true =>
      simp only [Bool.true_eq_false, if_false, if_true]
      by_cases unread : readWord tracee.text addr = failed
      · rw [if_pos unread, if_pos unread]
        rfl
      · rw [if_neg unread, if_neg unread]
        cases replies.poke <;> rfl

private theorem leaveBreakpointCalls_effect (replies : Replies) (tracee : Tracee) (addr data : Saved) :
    (leaveBreakpointCalls replies tracee addr data).foldl TextCall.effect tracee.text =
      (leaveBreakpoint replies tracee addr data).2.text := by
  dsimp only [leaveBreakpointCalls, leaveBreakpoint, pokeText, setPC]
  cases replies.restore <;> cases replies.pcGetregs <;> cases replies.pcSetregs <;> rfl

private theorem armReturn_text (tracer : Tracer) (tracee : Tracee) (replies : Replies)
    (surroundings : Surroundings) :
    (armReturnCalls replies tracee).foldl TextCall.effect tracee.text =
      (armReturn tracer tracee replies surroundings).tracee.text := by
  rw [armReturnCalls, armReturn, resume_tracee]
  exact setBreakpointCalls_effect replies tracee _

/-- The calls, in their order, are what a handler run does to the text. -/
theorem handleTraceEventCalls_effect (tracer : Tracer) (tracee : Tracee) (wstat : Nat)
    (replies : Replies) (surroundings : Surroundings) :
    (handleTraceEventCalls tracer tracee replies surroundings).foldl TextCall.effect tracee.text =
      (handleTraceEvent tracer tracee wstat replies surroundings).tracee.text := by
  rw [handleTraceEventCalls, handleTraceEvent]
  cases tracer.stage with
  | init =>
      dsimp only [traceeInit]
      rw [resume_tracee]
      exact setBreakpointCalls_effect replies tracee _
  | entry =>
      dsimp only [traceeEntryCalls, traceeEntry]
      cases scanHeap tracer surroundings with
      | none => rfl
      | some maps =>
          dsimp only
          rw [List.foldl_append, leaveBreakpointCalls_effect]
          split
          · rfl
          · exact armReturn_text _ _ replies surroundings
  | exit =>
      dsimp only [traceeExit]
      rw [leaveBreakpointCalls_effect]
      split
      · rfl
      · rw [resume_tracee]

structure Watch where
  lastRead : Option Reading
  planted : Option Reading

def Watch.step (watch : Watch) : TextCall → Watch
  | .peek reading => ⟨some reading, watch.planted⟩
  | .plant _serial _addr _word => ⟨none, watch.lastRead⟩
  | .restore _serial _addr _word => ⟨none, watch.planted⟩
  | .useLR _registersRead => ⟨none, watch.planted⟩

/-- A word written is `BRKPOINT_INSTR` at an address just read, or the word read there
for the breakpoint set last, put back. -/
def Watch.Sound (watch : Watch) : TextCall → Prop
  | .peek _reading => True
  | .plant serial addr word =>
      word = brkpointInstr ∧ ∃ original, watch.lastRead = some ⟨serial, addr, original⟩
  | .restore serial addr word => watch.planted = some ⟨serial, addr, word⟩
  | .useLR registersRead => registersRead = true

def Watch.start : Watch := ⟨none, none⟩

def TextSound (calls : List TextCall) : Prop := EachStep Watch.step Watch.Sound Watch.start calls

def Watch.PlantsWords (watch : Watch) : Prop :=
  ∀ reading, watch.planted = some reading → reading.word ≠ failed

def Watch.Knows (watch : Watch) (addr data : Saved) : Prop :=
  data.word = failed ∨
    ∃ serial, data.source = some serial ∧ watch.planted = some ⟨serial, addr.word, data.word⟩

private theorem Watch.PlantsWords.of_planted (watch other : Watch) (plants : watch.PlantsWords)
    (same : other.planted = watch.planted) : other.PlantsWords := by
  intro reading planted
  exact plants reading (same.symm.trans planted)

theorem setBreakpointCalls_sound (watch : Watch) (replies : Replies) (tracee : Tracee)
    (addr : Addr) :
    EachStep Watch.step Watch.Sound watch (setBreakpointCalls replies tracee addr) := by
  dsimp only [setBreakpointCalls]
  split
  · exact trivial
  · split
    · exact ⟨trivial, trivial⟩
    · split
      · exact ⟨trivial, trivial⟩
      · exact ⟨trivial, ⟨rfl, _, rfl⟩, trivial⟩

private theorem setBreakpointCalls_knows (watch : Watch) (plants : watch.PlantsWords)
    (replies : Replies)
    (tracee : Tracee) (addr : Saved) :
    (run Watch.step watch (setBreakpointCalls replies tracee addr.word)).PlantsWords ∧
      (run Watch.step watch (setBreakpointCalls replies tracee addr.word)).Knows addr
        (setBreakpoint replies tracee addr.word).1 := by
  dsimp only [setBreakpointCalls, setBreakpoint, peekText, pokeText]
  cases replies.peek with
  | false => exact ⟨plants, Or.inl rfl⟩
  | true =>
      simp only [Bool.true_eq_false, if_false, if_true]
      by_cases unread : readWord tracee.text addr.word = failed
      · rw [if_pos unread, if_pos unread]
        exact ⟨plants, Or.inl rfl⟩
      · rw [if_neg unread, if_neg unread]
        cases replies.poke with
        | false => exact ⟨plants, Or.inl rfl⟩
        | true =>
            refine ⟨?_, Or.inr ⟨tracee.serial, rfl, rfl⟩⟩
            intro reading same
            cases same
            exact unread

private theorem leaveBreakpointCalls_planted (watch : Watch) (replies : Replies) (tracee : Tracee)
    (addr data : Saved) :
    (run Watch.step watch (leaveBreakpointCalls replies tracee addr data)).planted =
      watch.planted := by
  rw [leaveBreakpointCalls]
  split <;> rfl

def Saved.ReadFrom (saved : Saved) (serial : Nat) : Prop :=
  saved.word ≠ failed ∧ saved.source = some serial

private theorem leaveBreakpointCalls_sound_iff (watch : Watch) (plants : watch.PlantsWords)
    (replies : Replies) (tracee : Tracee) (addr data : Saved) (knows : watch.Knows addr data) :
    EachStep Watch.step Watch.Sound watch (leaveBreakpointCalls replies tracee addr data) ↔
      (replies.restore = true → data.ReadFrom tracee.serial) := by
  rw [leaveBreakpointCalls]
  cases replies.restore with
  | false => exact iff_of_true trivial (fun none => by cases none)
  | true =>
      have written : watch.Sound (.restore tracee.serial addr.word data.word) ↔
          data.ReadFrom tracee.serial := by
        constructor
        · intro sound
          have same : watch.planted = some ⟨tracee.serial, addr.word, data.word⟩ := sound
          refine ⟨plants _ same, ?_⟩
          rcases knows with unset | ⟨serial, source, planted⟩
          · exact absurd unset (plants _ same)
          · rw [planted] at same
            cases same
            exact source
        · rintro ⟨word, source⟩
          rcases knows with unset | ⟨serial, known, planted⟩
          · exact absurd unset word
          · rw [source] at known
            cases known
            exact planted
      constructor
      · rintro ⟨sound, _end⟩ _restored
        exact written.mp sound
      · intro readFrom
        exact ⟨written.mpr (readFrom rfl), trivial⟩

structure TraceeStop where
  serial : Nat
  arrival : Arrival

structure TextRun where
  tracer : Option Tracer
  calls : List TextCall

def TraceeStop.calls (stop : TraceeStop) (tracer : Tracer) : List TextCall :=
  handleTraceEventCalls tracer ⟨stop.serial, stop.arrival.text, stop.arrival.regs, []⟩
    stop.arrival.replies stop.arrival.surroundings

def TextRun.step (reached : TextRun) (stop : TraceeStop) : TextRun :=
  { tracer := arrive stop.serial reached.tracer stop.arrival
    calls := reached.calls ++ (reached.tracer.map stop.calls).getD [] }

def SlotKnown (tracer : Tracer) (watch : Watch) : Prop :=
  match tracer.stage with
  | .init => True
  | .entry => watch.Knows tracer.tparams.brkpntAddr.entry tracer.tparams.brkpntData.entry
  | .exit => watch.Knows tracer.tparams.brkpntAddr.exit tracer.tparams.brkpntData.exit

/-- The slot that a stop puts back was filled from the same tracee, and `get_LR` does not
fail where it is reached. -/
def KeepsText (tracer : Tracer) (stop : TraceeStop) : Prop :=
  match tracer.stage with
  | .init => True
  | .entry => (scanHeap tracer stop.arrival.surroundings).isSome = true →
      stop.arrival.replies.restore = true →
        tracer.tparams.brkpntData.entry.ReadFrom stop.serial ∧
          (stop.arrival.replies.pcGetregs = true → stop.arrival.replies.pcSetregs = true →
            stop.arrival.replies.lrGetregs = true)
  | .exit => stop.arrival.replies.restore = true →
      tracer.tparams.brkpntData.exit.ReadFrom stop.serial

private theorem leaveBreakpoint_left_iff (replies : Replies) (tracee : Tracee) (addr data : Saved) :
    (leaveBreakpoint replies tracee addr data).1 = true ↔
      replies.restore = true ∧ replies.pcGetregs = true ∧ replies.pcSetregs = true := by
  dsimp only [leaveBreakpoint, pokeText, setPC]
  cases replies.restore <;> cases replies.pcGetregs <;> cases replies.pcSetregs <;> simp

private theorem armReturnCalls_sound_iff (watch : Watch) (replies : Replies) (tracee : Tracee) :
    EachStep Watch.step Watch.Sound watch (armReturnCalls replies tracee) ↔
      replies.lrGetregs = true :=
  and_iff_left (setBreakpointCalls_sound _ replies tracee _)

theorem TraceeStop.calls_sound_iff (stop : TraceeStop) (tracer : Tracer) (watch : Watch)
    (plants : watch.PlantsWords) (slot : SlotKnown tracer watch) :
    EachStep Watch.step Watch.Sound watch (stop.calls tracer) ↔ KeepsText tracer stop := by
  rw [calls, handleTraceEventCalls, KeepsText]
  rw [SlotKnown] at slot
  cases stage : tracer.stage with
  | init => exact iff_of_true (setBreakpointCalls_sound watch _ _ _) trivial
  | exit =>
      rw [stage] at slot
      exact leaveBreakpointCalls_sound_iff watch plants _ _ _ _ slot
  | entry =>
      rw [stage] at slot
      dsimp only [traceeEntryCalls]
      cases scanHeap tracer stop.arrival.surroundings with
      | none => exact iff_of_true trivial (fun none => by cases none)
      | some maps =>
          have left := leaveBreakpoint_left_iff stop.arrival.replies
            ⟨stop.serial, stop.arrival.text, stop.arrival.regs, []⟩
            tracer.tparams.brkpntAddr.entry tracer.tparams.brkpntData.entry
          dsimp only
          rw [eachStep_append, leaveBreakpointCalls_sound_iff watch plants _ _ _ _ slot]
          split
          · rename_i stuck
            have notLeft := Bool.eq_false_iff.mp stuck
            rw [ne_eq, left] at notLeft
            constructor
            · rintro ⟨readFrom, _arms⟩ _scanned restored
              exact ⟨readFrom restored, fun gets sets => absurd ⟨restored, gets, sets⟩ notLeft⟩
            · intro keeps
              exact ⟨fun restored => (keeps rfl restored).1, trivial⟩
          · rename_i free
            obtain ⟨restored, gets, sets⟩ := left.mp (eq_true_of_ne_false free)
            rw [armReturnCalls_sound_iff]
            constructor
            · rintro ⟨readFrom, linkRead⟩ _scanned _restored
              exact ⟨readFrom restored, fun _gets _sets => linkRead⟩
            · intro keeps
              obtain ⟨readFrom, linkRead⟩ := keeps rfl restored
              exact ⟨fun _restored => readFrom, linkRead gets sets⟩

private theorem traceeEntryCalls_some (tracer next : Tracer) (tracee : Tracee) (replies : Replies)
    (surroundings : Surroundings)
    (survived : (traceeEntry tracer tracee replies surroundings).tracer = some next) :
    traceeEntryCalls tracer tracee replies surroundings =
      leaveBreakpointCalls replies tracee tracer.tparams.brkpntAddr.entry
          tracer.tparams.brkpntData.entry ++
        armReturnCalls replies (leaveBreakpoint replies tracee tracer.tparams.brkpntAddr.entry
          tracer.tparams.brkpntData.entry).2 := by
  rw [traceeEntry] at survived
  rw [traceeEntryCalls]
  cases scanned : scanHeap tracer surroundings with
  | none =>
      rw [scanned] at survived
      cases survived
  | some maps =>
      rw [scanned] at survived
      dsimp only at survived ⊢
      by_cases left : (leaveBreakpoint replies tracee tracer.tparams.brkpntAddr.entry
          tracer.tparams.brkpntData.entry).1 = false
      · rw [if_pos left] at survived
        cases survived
      · rw [if_neg left]

private theorem armReturnCalls_knows (watch : Watch) (plants : watch.PlantsWords) (replies : Replies)
    (tracee : Tracee) :
    (run Watch.step watch (armReturnCalls replies tracee)).PlantsWords ∧
      (run Watch.step watch (armReturnCalls replies tracee)).Knows
        ⟨getLR replies tracee &&& armIsaMask, some tracee.serial⟩
        (setBreakpoint replies tracee (getLR replies tracee &&& armIsaMask)).1 :=
  setBreakpointCalls_knows (watch.step (.useLR replies.lrGetregs))
    (plants.of_planted watch _ rfl) replies tracee
    ⟨getLR replies tracee &&& armIsaMask, some tracee.serial⟩

private theorem handleTraceEventCalls_plants (watch : Watch) (plants : watch.PlantsWords)
    (tracer : Tracer) (tracee : Tracee) (replies : Replies) (surroundings : Surroundings) :
    (run Watch.step watch
      (handleTraceEventCalls tracer tracee replies surroundings)).PlantsWords := by
  have leaves (addr data : Saved) := plants.of_planted watch _
    (leaveBreakpointCalls_planted watch replies tracee addr data)
  rw [handleTraceEventCalls]
  cases tracer.stage with
  | init => exact (setBreakpointCalls_knows watch plants replies tracee _).1
  | exit => exact leaves _ _
  | entry =>
      dsimp only [traceeEntryCalls]
      split
      · exact plants
      · rw [run_append]
        split
        · exact leaves _ _
        · exact (armReturnCalls_knows _ (leaves _ _) replies _).1

/-- Whatever fails, the next stop finds the slot of its stage filled by `-1` or by the
breakpoint set last. -/
theorem TraceeStop.slot_kept (stop : TraceeStop) (tracer next : Tracer) (watch : Watch)
    (plants : watch.PlantsWords)
    (survived : (stopped tracer stop.serial stop.arrival).tracer = some next) :
    SlotKnown next (run Watch.step watch (stop.calls tracer)) := by
  have moved := stopped_stage tracer next stop.serial stop.arrival survived
  unfold stopped handleTraceEvent at survived
  rw [SlotKnown, moved, calls, handleTraceEventCalls]
  cases stage : tracer.stage with
  | init =>
      rw [stage] at survived
      rw [resume_tracer _ _ _ _ survived]
      exact (setBreakpointCalls_knows watch plants _ _ _).2
  | exit => exact trivial
  | entry =>
      rw [stage] at survived
      dsimp only at survived ⊢
      rw [traceeEntryCalls_some tracer next _ _ _ survived, run_append]
      obtain ⟨maps, same⟩ := traceeEntry_some tracer next _ _ _ survived
      rw [same] at survived
      rw [resume_tracer _ _ _ _ survived]
      exact (armReturnCalls_knows _ (plants.of_planted watch _
        (leaveBreakpointCalls_planted watch _ _ _ _)) _ _).2

def TextRun.watch (reached : TextRun) : Watch := run Watch.step Watch.start reached.calls

/-- Over any stops of any tracees, whichever calls fail, the calls on the text are sound
exactly when every stop the tracer meets keeps the text. -/
theorem textSound_run_iff (tracer : Tracer) (fresh : tracer.stage = .init)
    (stops : List TraceeStop) :
    Always TextRun.step (fun reached => TextSound reached.calls) ⟨some tracer, []⟩ stops ↔
      EachStep TextRun.step
        (fun reached stop => ∀ current, reached.tracer = some current → KeepsText current stop)
        ⟨some tracer, []⟩ stops := by
  rw [always_iff_eachStep TextRun.step (fun reached => TextSound reached.calls)
    (fun reached => reached.watch.PlantsWords ∧
      ∀ current, reached.tracer = some current → SlotKnown current reached.watch)
    (fun reached stop => ∀ current, reached.tracer = some current → KeepsText current stop)]
  · exact and_iff_right trivial
  · rintro ⟨current, calls⟩ stop ⟨plants, slot⟩
    cases current with
    | none =>
        rw [TextRun.step, Option.map_none, Option.getD_none, List.append_nil]
        exact ⟨plants, slot⟩
    | some current =>
        rw [TextRun.step, Option.map_some, Option.getD_some, TextRun.watch, run_append]
        refine ⟨handleTraceEventCalls_plants _ plants current _ _ _, ?_⟩
        intro next survived
        exact stop.slot_kept current next _ plants survived
  · rintro ⟨current, calls⟩ stop ⟨plants, slot⟩ sound
    cases current with
    | none =>
        rw [TextRun.step, Option.map_none, Option.getD_none, List.append_nil]
        exact iff_of_true sound (fun _current none => by cases none)
    | some current =>
        rw [TextRun.step, Option.map_some, Option.getD_some, TextSound, eachStep_append]
        have exact := stop.calls_sound_iff current _ plants (slot current rfl)
        constructor
        · rintro ⟨_before, now⟩ present same
          cases same
          exact exact.mp now
        · intro keeps
          exact ⟨sound, exact.mpr (keeps current rfl)⟩
  · refine ⟨(fun _reading none => by cases none), ?_⟩
    intro current same
    cases same
    rw [SlotKnown, fresh]
    exact trivial

def sampleHit : Arrival :=
  { sampleArrival with cause := .breakpoint, addr := 0x8000 }

theorem textSound_run_iff_sample :
    Always TextRun.step (fun reached => TextSound reached.calls) ⟨some sampleTracer, []⟩
      [⟨0, sampleArrival⟩, ⟨0, sampleHit⟩] := by
  apply (textSound_run_iff sampleTracer rfl [⟨0, sampleArrival⟩, ⟨0, sampleHit⟩]).mpr
  refine ⟨?_, ?_, trivial⟩
  · intro current same
    cases same
    exact trivial
  · intro current same
    cases same
    exact fun _scanned _restored => ⟨⟨by decide, rfl⟩, fun _gets _sets => rfl⟩

def sampleUnplanted : Arrival := { sampleArrival with replies := { Replies.all with poke := false } }

theorem failed_plant_written :
    (run TextRun.step ⟨some sampleTracer, []⟩ [⟨0, sampleUnplanted⟩, ⟨0, sampleHit⟩]).calls =
      [.peek ⟨0, 0x8000, 0⟩, .restore 0 0x8000 failed, .useLR true, .peek ⟨0, 0x7000, 0⟩,
        .plant 0 0x7000 brkpointInstr] ∧
    ¬ Always TextRun.step (fun reached => TextSound reached.calls) ⟨some sampleTracer, []⟩
      [⟨0, sampleUnplanted⟩, ⟨0, sampleHit⟩] := by
  have calls : (run TextRun.step ⟨some sampleTracer, []⟩
      [⟨0, sampleUnplanted⟩, ⟨0, sampleHit⟩]).calls =
        [.peek ⟨0, 0x8000, 0⟩, .restore 0 0x8000 failed, .useLR true, .peek ⟨0, 0x7000, 0⟩,
          .plant 0 0x7000 brkpointInstr] := rfl
  refine ⟨calls, ?_⟩
  intro always
  have sound := always.last
  rw [calls] at sound
  obtain ⟨_read, restored, _rest⟩ := sound
  cases restored

end BlackboxProfiling.Functime
