import BlackboxProfiling.ByteMemory

/-!
The tracee as `functime` sees it through `ptrace`, and the three helpers that
wrap the calls. Which calls of one handler run succeed is part of the input.
-/

namespace BlackboxProfiling.Functime

open ByteMemory

abbrev Addr := BitVec 32

abbrev Word := BitVec 32

/-- The instruction word put in place of a patched one; it is also the word `-1`. -/
def brkpointInstr : Word := 0xffffffff

def armIsaMask : Word := ~~~1

def failed : Word := -1

structure UserRegs where
  uregs : Fin 18 → Word

def UserRegs.lr (regs : UserRegs) : Word := regs.uregs 14

def UserRegs.pc (regs : UserRegs) : Word := regs.uregs 15

def UserRegs.withPc (regs : UserRegs) (addr : Addr) : UserRegs :=
  ⟨Function.update regs.uregs 15 addr⟩

theorem UserRegs.withPc_withPc (regs : UserRegs) (first second : Addr) :
    (regs.withPc first).withPc second = regs.withPc second := by
  simp only [withPc, Function.update_idem]

theorem UserRegs.withPc_self (regs : UserRegs) : regs.withPc regs.pc = regs := by
  simp only [withPc, pc, Function.update_eq_self]

structure Saved where
  word : Word
  source : Option Nat
  deriving DecidableEq, Repr

/-- A stopped tracee and the words `ptrace` wrote into its text and program counter
during one handler run. Pids are reused, so a tracee is identified by its place in
the sequence of tracees. -/
structure Tracee where
  serial : Nat
  text : Memory 32
  regs : UserRegs
  written : List Saved

structure Replies where
  restore : Bool
  pcGetregs : Bool
  pcSetregs : Bool
  lrGetregs : Bool
  peek : Bool
  poke : Bool
  cont : Bool
  deriving DecidableEq, Repr

def Replies.all : Replies := ⟨true, true, true, true, true, true, true⟩

def peekText (ok : Bool) (tracee : Tracee) (addr : Addr) : Word :=
  if ok then readWord tracee.text addr else failed

def pokeText (ok : Bool) (tracee : Tracee) (addr : Addr) (saved : Saved) : Bool × Tracee :=
  if ok then
    (true,
      { tracee with
        text := writeWord tracee.text addr saved.word
        written := tracee.written ++ [saved] })
  else (false, tracee)

/-- The word read is compared with `-1`, whether that stands for a failure or not. -/
def setBreakpoint (replies : Replies) (tracee : Tracee) (addr : Addr) : Saved × Tracee :=
  let data := peekText replies.peek tracee addr
  if data = failed then (⟨failed, some tracee.serial⟩, tracee)
  else
    let poked := pokeText replies.poke tracee addr ⟨brkpointInstr, none⟩
    if poked.1 = false then (⟨failed, some tracee.serial⟩, poked.2)
    else (⟨data, some tracee.serial⟩, poked.2)

def getLR (replies : Replies) (tracee : Tracee) : Word :=
  if replies.lrGetregs then tracee.regs.lr else failed

def setPC (replies : Replies) (tracee : Tracee) (addr : Saved) : Bool × Tracee :=
  if replies.pcGetregs = false then (false, tracee)
  else if replies.pcSetregs = false then (false, tracee)
  else
    (true,
      { tracee with
        regs := tracee.regs.withPc addr.word
        written := tracee.written ++ [addr] })

def leaveBreakpoint (replies : Replies) (tracee : Tracee) (addr data : Saved) : Bool × Tracee :=
  let poked := pokeText replies.restore tracee addr.word data
  if poked.1 = false then (false, poked.2) else setPC replies poked.2 addr

private theorem pokeText_written (ok : Bool) (tracee : Tracee) (addr : Addr) (saved written : Saved)
    (member : written ∈ (pokeText ok tracee addr saved).2.written) :
    written ∈ tracee.written ∨ written = saved := by
  unfold pokeText at member
  split at member
  · exact (List.mem_append.mp member).imp_right List.mem_singleton.mp
  · exact Or.inl member

private theorem setPC_written (replies : Replies) (tracee : Tracee) (addr written : Saved)
    (member : written ∈ (setPC replies tracee addr).2.written) :
    written ∈ tracee.written ∨ written = addr := by
  unfold setPC at member
  split at member
  · exact Or.inl member
  · split at member
    · exact Or.inl member
    · exact (List.mem_append.mp member).imp_right List.mem_singleton.mp

theorem setBreakpoint_source (replies : Replies) (tracee : Tracee) (addr : Addr) :
    (setBreakpoint replies tracee addr).1.source = some tracee.serial := by
  dsimp only [setBreakpoint]
  split
  · rfl
  · split <;> rfl

theorem setBreakpoint_written (replies : Replies) (tracee : Tracee) (addr : Addr)
    (written : Saved) (member : written ∈ (setBreakpoint replies tracee addr).2.written) :
    written ∈ tracee.written ∨ written = ⟨brkpointInstr, none⟩ := by
  dsimp only [setBreakpoint] at member
  split at member
  · exact Or.inl member
  · split at member <;> exact pokeText_written replies.poke tracee addr _ written member

theorem leaveBreakpoint_serial (replies : Replies) (tracee : Tracee) (addr data : Saved) :
    (leaveBreakpoint replies tracee addr data).2.serial = tracee.serial := by
  dsimp only [leaveBreakpoint, pokeText, setPC]
  repeat' split
  all_goals rfl

theorem leaveBreakpoint_written (replies : Replies) (tracee : Tracee) (addr data written : Saved)
    (member : written ∈ (leaveBreakpoint replies tracee addr data).2.written) :
    written ∈ tracee.written ∨ written = data ∨ written = addr := by
  dsimp only [leaveBreakpoint] at member
  split at member
  · exact (pokeText_written _ _ _ _ _ member).imp_right Or.inl
  · rcases setPC_written _ _ _ _ member with earlier | rewound
    · exact (pokeText_written _ _ _ _ _ earlier).imp_right Or.inl
    · exact Or.inr (Or.inr rewound)

theorem leaveBreakpoint_all (tracee : Tracee) (addr data : Saved) :
    (leaveBreakpoint .all tracee addr data).1 = true ∧
      (leaveBreakpoint .all tracee addr data).2.text =
        writeWord tracee.text addr.word data.word ∧
      (leaveBreakpoint .all tracee addr data).2.regs = tracee.regs.withPc addr.word := by
  simp [leaveBreakpoint, pokeText, setPC, Replies.all]

/-- A word that already is the breakpoint word is left in place, with the same effect. -/
theorem setBreakpoint_all (tracee : Tracee) (addr : Addr) :
    (setBreakpoint .all tracee addr).1.word = readWord tracee.text addr ∧
      (setBreakpoint .all tracee addr).2.text = writeWord tracee.text addr brkpointInstr ∧
      (setBreakpoint .all tracee addr).2.regs = tracee.regs := by
  by_cases already : readWord tracee.text addr = failed
  · have same : writeWord tracee.text addr brkpointInstr = tracee.text := by
      have words : brkpointInstr = readWord tracee.text addr := already.symm
      rw [words, writeWord_readWord]
    simp [setBreakpoint, peekText, Replies.all, already, same]
  · simp [setBreakpoint, peekText, pokeText, Replies.all, already]

end BlackboxProfiling.Functime
