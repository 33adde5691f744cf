import BlackboxProfiling.StutterRun
import BlackboxProfiling.Functime.TraceEvent

/-!
A traced program against the same program on its own. The program is arbitrary:
registers, a state, and a step that fetches the bytes of one instruction and no
other text. All `ptrace` calls succeed, and a fetch that meets a patched byte stops
the tracee; a stop elsewhere than at the armed breakpoint is outside the model.
-/

namespace BlackboxProfiling.Functime

open ByteMemory StutterRun

variable {σ : Type}

structure Cpu (σ : Type) where
  regs : UserRegs
  rest : σ

def Cpu.place (cpu : Cpu σ) (index : Nat) : Addr := cpu.regs.pc + BitVec.ofNat 32 index

/-- A program: the width of the instruction at the program counter and the effect
of executing it, both read off the bytes of that instruction. -/
structure Program (σ : Type) where
  width : Cpu σ → Memory 32 → Nat
  execute : Cpu σ → Memory 32 → Cpu σ
  width_positive : ∀ cpu text, 0 < width cpu text
  width_fetched : ∀ cpu text other,
    (∀ index < width cpu text, other (cpu.place index) = text (cpu.place index)) →
      width cpu other = width cpu text
  execute_fetched : ∀ cpu text other,
    (∀ index < width cpu text, other (cpu.place index) = text (cpu.place index)) →
      execute cpu other = execute cpu text

structure Instruction where
  addr : Addr
  bytes : List (BitVec 8)
  deriving DecidableEq, Repr

def Program.fetch (program : Program σ) (cpu : Cpu σ) (text : Memory 32) : Instruction :=
  { addr := cpu.regs.pc
    bytes := (List.range (program.width cpu text)).map (fun index => text (cpu.place index)) }

structure Untraced (σ : Type) where
  cpu : Cpu σ
  executed : List Instruction

def Untraced.step (program : Program σ) (text : Memory 32) (untraced : Untraced σ) :
    Untraced σ :=
  { cpu := program.execute untraced.cpu text
    executed := untraced.executed ++ [program.fetch untraced.cpu text] }

structure Traced (σ : Type) where
  tracer : Tracer
  cpu : Cpu σ
  text : Memory 32
  executed : List Instruction

def armed (tracer : Tracer) : Option Addr :=
  match tracer.stage with
  | .entry => some tracer.tparams.brkpntAddr.entry.word
  | .exit => some tracer.tparams.brkpntAddr.exit.word
  | .init => none

def Program.touches (program : Program σ) (cpu : Cpu σ) (text : Memory 32) (addr : Addr) : Bool :=
  (List.range (program.width cpu text)).any (fun index => decide (Inside addr (cpu.place index)))

/-- What one step may meet if it is a stop: the program counter the kernel reports,
the status word, and the surroundings of the handler. -/
structure Trap where
  reported : Addr
  wstat : Nat
  surroundings : Surroundings

def Traced.execute (program : Program σ) (traced : Traced σ) : Traced σ :=
  { traced with
    cpu := program.execute traced.cpu traced.text
    executed := traced.executed ++ [program.fetch traced.cpu traced.text] }

def Traced.stop (traced : Traced σ) (trap : Trap) : Option (Traced σ) :=
  let handled := handleTraceEvent traced.tracer
    ⟨0, traced.text, traced.cpu.regs.withPc trap.reported, []⟩ trap.wstat .all trap.surroundings
  handled.tracer.map (fun tracer =>
    { traced with
      tracer := tracer
      cpu := { traced.cpu with regs := handled.tracee.regs }
      text := handled.tracee.text })

def Traced.step (program : Program σ) (traced : Traced σ) (trap : Trap) : Option (Traced σ) :=
  match armed traced.tracer with
  | none => some (traced.execute program)
  | some addr =>
      if program.touches traced.cpu traced.text addr then
        if traced.cpu.regs.pc = addr then traced.stop trap else none
      else some (traced.execute program)

private theorem traceeInit_all (tracer next : Tracer) (tracee : Tracee)
    (survived : (traceeInit tracer tracee .all).tracer = some next) :
    next.stage = .entry ∧ next.tparams.brkpntAddr = tracer.tparams.brkpntAddr ∧
      next.tparams.brkpntData.entry.word =
        readWord tracee.text tracer.tparams.brkpntAddr.entry.word ∧
      (traceeInit tracer tracee .all).tracee.text =
        writeWord tracee.text tracer.tparams.brkpntAddr.entry.word brkpointInstr ∧
      (traceeInit tracer tracee .all).tracee.regs = tracee.regs := by
  obtain ⟨data, text, regs⟩ := setBreakpoint_all tracee tracer.tparams.brkpntAddr.entry.word
  dsimp only [traceeInit] at survived ⊢
  rw [resume_tracee, resume_tracer _ _ _ _ survived]
  exact ⟨rfl, rfl, data, text, regs⟩

private theorem traceeEntry_all (tracer next : Tracer) (tracee : Tracee) (surroundings : Surroundings)
    (original : Memory 32)
    (patched : tracee.text =
      writeWord original tracer.tparams.brkpntAddr.entry.word brkpointInstr)
    (data : tracer.tparams.brkpntData.entry.word =
      readWord original tracer.tparams.brkpntAddr.entry.word)
    (survived : (traceeEntry tracer tracee .all surroundings).tracer = some next) :
    next.stage = .exit ∧
      next.tparams.brkpntData.exit.word = readWord original next.tparams.brkpntAddr.exit.word ∧
      (traceeEntry tracer tracee .all surroundings).tracee.text =
        writeWord original next.tparams.brkpntAddr.exit.word brkpointInstr ∧
      (traceeEntry tracer tracee .all surroundings).tracee.regs =
        tracee.regs.withPc tracer.tparams.brkpntAddr.entry.word := by
  obtain ⟨_left, text, regs⟩ := leaveBreakpoint_all tracee tracer.tparams.brkpntAddr.entry
    tracer.tparams.brkpntData.entry
  rw [patched, data, writeWord_restores] at text
  have back := setBreakpoint_all
    (leaveBreakpoint .all tracee tracer.tparams.brkpntAddr.entry
      tracer.tparams.brkpntData.entry).2
    (getLR .all (leaveBreakpoint .all tracee tracer.tparams.brkpntAddr.entry
      tracer.tparams.brkpntData.entry).2 &&& armIsaMask)
  rw [text, regs] at back
  obtain ⟨maps, same⟩ := traceeEntry_some tracer next tracee _ _ survived
  rw [same] at survived ⊢
  dsimp only [armReturn] at survived ⊢
  rw [resume_tracee, resume_tracer _ _ _ _ survived]
  exact ⟨rfl, back.1, back.2.1, back.2.2⟩

private theorem traceeExit_all (tracer next : Tracer) (tracee : Tracee) (surroundings : Surroundings)
    (original : Memory 32)
    (patched : tracee.text =
      writeWord original tracer.tparams.brkpntAddr.exit.word brkpointInstr)
    (data : tracer.tparams.brkpntData.exit.word =
      readWord original tracer.tparams.brkpntAddr.exit.word)
    (survived : (traceeExit tracer tracee .all surroundings).tracer = some next) :
    next.stage = .init ∧
      (traceeExit tracer tracee .all surroundings).tracee.text = original ∧
      (traceeExit tracer tracee .all surroundings).tracee.regs =
        tracee.regs.withPc tracer.tparams.brkpntAddr.exit.word := by
  obtain ⟨_left, text, regs⟩ := leaveBreakpoint_all tracee tracer.tparams.brkpntAddr.exit
    tracer.tparams.brkpntData.exit
  rw [patched, data, writeWord_restores] at text
  have same := traceeExit_some tracer next tracee _ _ survived
  rw [same] at survived ⊢
  rw [resume_tracee, resume_tracer _ _ _ _ survived]
  exact ⟨rfl, text, regs⟩

/-- The text is the original but for the word armed for the stage, whose original
is in the slot of the stage. -/
def TextKept (text : Memory 32) (traced : Traced σ) : Prop :=
  match traced.tracer.stage with
  | .entry =>
      traced.text =
          writeWord text traced.tracer.tparams.brkpntAddr.entry.word brkpointInstr ∧
        traced.tracer.tparams.brkpntData.entry.word =
          readWord text traced.tracer.tparams.brkpntAddr.entry.word
  | .exit =>
      traced.text =
          writeWord text traced.tracer.tparams.brkpntAddr.exit.word brkpointInstr ∧
        traced.tracer.tparams.brkpntData.exit.word =
          readWord text traced.tracer.tparams.brkpntAddr.exit.word
  | .init => traced.text = text

def Matches (text : Memory 32) (traced : Traced σ) (untraced : Untraced σ) : Prop :=
  TextKept text traced ∧ traced.cpu = untraced.cpu ∧ traced.executed = untraced.executed

def stopsLeft (traced : Traced σ) : Nat :=
  match traced.tracer.stage with
  | .entry => 2
  | .exit => 1
  | .init => 0

private theorem textKept_outside (text : Memory 32) (traced : Traced σ) (kept : TextKept text traced)
    (place : Addr)
    (outside : ∀ addr, armed traced.tracer = some addr → ¬ Inside addr place) :
    traced.text place = text place := by
  unfold TextKept at kept
  unfold armed at outside
  cases stage : traced.tracer.stage with
  | init =>
      rw [stage] at kept
      exact congrFun kept place
  | entry =>
      rw [stage] at kept outside
      rw [kept.1]
      exact writeWord_outside _ _ _ place (outside _ rfl)
  | exit =>
      rw [stage] at kept outside
      rw [kept.1]
      exact writeWord_outside _ _ _ place (outside _ rfl)

private theorem execute_matches (program : Program σ) (text : Memory 32) (traced : Traced σ)
    (untraced : Untraced σ) (related : Matches text traced untraced)
    (away : ∀ addr, armed traced.tracer = some addr →
      program.touches traced.cpu traced.text addr = false) :
    Matches text (traced.execute program) (untraced.step program text) := by
  obtain ⟨kept, sameCpu, sameExecuted⟩ := related
  have fetched : ∀ index < program.width traced.cpu traced.text,
      text (traced.cpu.place index) = traced.text (traced.cpu.place index) := by
    intro index inside
    apply Eq.symm
    apply textKept_outside text traced kept
    intro addr isArmed hit
    have untouched := List.any_eq_false.mp (away addr isArmed) index (List.mem_range.mpr inside)
    exact untouched (decide_eq_true hit)
  have sameWidth := program.width_fetched traced.cpu traced.text text fetched
  have sameEffect := program.execute_fetched traced.cpu traced.text text fetched
  have sameFetch : program.fetch traced.cpu text = program.fetch traced.cpu traced.text := by
    unfold Program.fetch
    rw [sameWidth]
    congr 1
    apply List.map_congr_left
    intro index member
    exact fetched index (List.mem_range.mp member)
  refine ⟨kept, ?_, ?_⟩
  · dsimp only [Traced.execute, Untraced.step]
    rw [← sameCpu, sameEffect]
  · dsimp only [Traced.execute, Untraced.step]
    rw [← sameCpu, ← sameExecuted, sameFetch]

private theorem stop_matches (text : Memory 32) (traced after : Traced σ) (untraced : Untraced σ)
    (trap : Trap) (related : Matches text traced untraced) (addr : Addr)
    (isArmed : armed traced.tracer = some addr) (here : traced.cpu.regs.pc = addr)
    (resumed : traced.stop trap = some after) :
    Matches text after untraced ∧ stopsLeft after < stopsLeft traced := by
  obtain ⟨kept, sameCpu, sameExecuted⟩ := related
  obtain ⟨next, survived, rfl⟩ := Option.map_eq_some_iff.mp resumed
  have rewound (regs : UserRegs) (back : regs =
      (traced.cpu.regs.withPc trap.reported).withPc addr) : regs = traced.cpu.regs := by
    rw [back, UserRegs.withPc_withPc, ← here, UserRegs.withPc_self]
  unfold handleTraceEvent at survived
  unfold TextKept at kept
  unfold armed at isArmed
  cases stage : traced.tracer.stage with
  | init =>
      rw [stage] at isArmed
      cases isArmed
  | entry =>
      rw [stage] at isArmed kept survived
      cases isArmed
      have done := traceeEntry_all traced.tracer next
        ⟨0, traced.text, traced.cpu.regs.withPc trap.reported, []⟩ trap.surroundings text kept.1
        kept.2 survived
      obtain ⟨nextStage, data, patched, regs⟩ := done
      refine ⟨⟨?_, ?_, sameExecuted⟩, ?_⟩
      · simp only [TextKept, nextStage, handleTraceEvent, stage]
        exact ⟨patched, data⟩
      · simp only [handleTraceEvent, stage]
        rw [rewound _ regs]
        exact sameCpu
      · simp only [stopsLeft, nextStage, stage]
        decide
  | exit =>
      rw [stage] at isArmed kept survived
      cases isArmed
      have done := traceeExit_all traced.tracer next
        ⟨0, traced.text, traced.cpu.regs.withPc trap.reported, []⟩ trap.surroundings text kept.1
        kept.2 survived
      obtain ⟨nextStage, restored, regs⟩ := done
      refine ⟨⟨?_, ?_, sameExecuted⟩, ?_⟩
      · simp only [TextKept, nextStage, handleTraceEvent, stage]
        exact restored
      · simp only [handleTraceEvent, stage]
        rw [rewound _ regs]
        exact sameCpu
      · simp only [stopsLeft, nextStage, stage]
        decide

theorem traced_simulation (program : Program σ) (text : Memory 32) :
    Simulation (Traced.step program) (Untraced.step program text) (Matches text) stopsLeft := by
  constructor
  intro traced untraced trap after related stepped
  unfold Traced.step at stepped
  split at stepped
  · rename_i unarmed
    cases stepped
    refine Or.inl ⟨execute_matches program text traced untraced related ?_, Nat.le_refl _⟩
    intro addr isArmed
    rw [unarmed] at isArmed
    cases isArmed
  · rename_i addr isArmed
    split at stepped
    · split at stepped
      · rename_i here
        exact Or.inr (stop_matches text traced after untraced trap related addr isArmed here stepped)
      · cases stepped
    · rename_i untouched
      cases stepped
      refine Or.inl ⟨execute_matches program text traced untraced related ?_, Nat.le_refl _⟩
      intro other otherArmed
      rw [isArmed] at otherArmed
      cases otherArmed
      exact Bool.eq_false_iff.mpr untouched

/-- The exec trap: the program has not executed anything and stands where it starts. -/
def execTrap (tracer : Tracer) (cpu : Cpu σ) (text : Memory 32) (trap : Trap) :
    Option (Traced σ) :=
  Traced.stop { tracer := tracer, cpu := cpu, text := text, executed := [] }
    { trap with reported := cpu.regs.pc }

private theorem execTrap_matches (tracer : Tracer) (fresh : tracer.stage = .init) (cpu : Cpu σ)
    (text : Memory 32) (trap : Trap) (start : Traced σ)
    (began : execTrap tracer cpu text trap = some start) :
    Matches text start { cpu := cpu, executed := [] } ∧ stopsLeft start = 2 := by
  obtain ⟨next, survived, rfl⟩ := Option.map_eq_some_iff.mp began
  unfold handleTraceEvent at survived
  dsimp only at survived
  rw [fresh] at survived
  have done := traceeInit_all tracer next ⟨0, text, cpu.regs.withPc cpu.regs.pc, []⟩ survived
  obtain ⟨nextStage, sameAddr, data, patched, regs⟩ := done
  rw [UserRegs.withPc_self] at regs
  refine ⟨⟨?_, ?_, rfl⟩, ?_⟩
  · simp only [TextKept, nextStage, handleTraceEvent, fresh, sameAddr]
    exact ⟨patched, data⟩
  · simp only [handleTraceEvent, fresh]
    rw [UserRegs.withPc_self, regs]
  · simp only [stopsLeft, nextStage]

private theorem stop_none (traced : Traced σ) (trap : Trap) (addr : Addr)
    (isArmed : armed traced.tracer = some addr) (noResult : traced.stop trap = none) :
    scanHeap traced.tracer trap.surroundings = none := by
  have gone := Option.map_eq_none_iff.mp noResult
  unfold handleTraceEvent at gone
  unfold armed at isArmed
  cases stage : traced.tracer.stage with
  | init =>
      rw [stage] at isArmed
      cases isArmed
  | entry =>
      rw [stage] at gone
      dsimp only [traceeEntry] at gone
      cases scanned : scanHeap traced.tracer trap.surroundings with
      | none => rfl
      | some maps =>
          rw [scanned] at gone
          dsimp only at gone
          rw [(leaveBreakpoint_all _ _ _).1] at gone
          cases gone
  | exit =>
      rw [stage] at gone
      dsimp only [traceeExit] at gone
      rw [(leaveBreakpoint_all _ _ _).1] at gone
      cases gone

def sampleProgram : Program Unit where
  width _cpu _text := 4
  execute cpu _text := { cpu with regs := cpu.regs.withPc (cpu.regs.pc + 4) }
  width_positive _cpu _text := by decide
  width_fetched _cpu _text _other _same := rfl
  execute_fetched _cpu _text _other _same := rfl

def sampleCpu : Cpu Unit :=
  { regs := ⟨fun register => if register.val = 14 then 0x8000 else 0x7ffc⟩
    rest := () }

def sampleTrap : Trap :=
  { reported := 0x8004
    wstat := 5
    surroundings := { mapsLines := [], procOpens := true, cycles := 0 } }

end BlackboxProfiling.Functime
