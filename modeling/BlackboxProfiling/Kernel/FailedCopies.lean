import BlackboxProfiling.Kernel.FillingParams
import BlackboxProfiling.Kernel.WriteSteps

/-!
Writes in which a copy from user space fails. Only a failing copy of the record itself
is answered before anything has been allocated.
-/

namespace BlackboxProfiling

open BlockMemory

def BothMultiple.Request.CopyFails (request : BothMultiple.Request) : Prop :=
  request.headerCopy.Fails ∨ (request.buffCopy.Fails ∧ byteCount request.header.size ≠ 0)

inductive Write where
  | functimeKernelModule (cp : FunctimeKernelModule.Pointers.CpParams)
      (request : FunctimeKernelModule.Pointers.Request)
  | bothMultiple (cp : BothMultiple.CpParams) (request : BothMultiple.Request)

def Write.CopyFails (env : KernelEnv) : Write → Prop
  | .functimeKernelModule _cp request => request.CopyFails env
  | .bothMultiple _cp request => request.CopyFails

def Write.Ends (env : KernelEnv) (cell : Nat → Nat → Int) (before : TaskList) (ret : Int)
    (memory : Memory) (processes : List Task) : Write → Prop
  | .functimeKernelModule cp request =>
      ∃ after, FunctimeKernelModule.Pointers.memprofileProcWrite env request
        ⟨cp, emptyMemory cell, before.tasks⟩ = some (ret, ⟨after, memory, processes⟩)
  | .bothMultiple cp request =>
      ∃ steps after, BothMultiple.writeRun env request steps ⟨cp, emptyMemory cell, before.tasks⟩
        .entered = (⟨after, memory, processes⟩, .returned ret)

/-- No process is changed, what was allocated is freed exactly once and no pointer from
user space is freed or followed. -/
structure Intact (before : TaskList) (memory : Memory) (processes : List Task) : Prop where
  unchanged : processes = before.tasks
  freed : ∀ number, number < memory.count → memory.released.count (.block number) = 1
  notFreed : ∀ address, .foreign address ∉ memory.released
  notFollowed : ∀ address, .foreign address ∉ memory.followed

def Write.FailsIntact (env : KernelEnv) (cell : Nat → Nat → Int) (before : TaskList)
    (write : Write) : Prop :=
  ∃ memory processes, write.Ends env cell before (-BothMultiple.efault) memory processes ∧
    Intact before memory processes

def Write.RecordFails : Write → Prop
  | .functimeKernelModule _cp request => request.headerCopy.Fails
  | .bothMultiple _cp request => request.headerCopy.Fails

section Failing

variable (env : KernelEnv) (cell : Nat → Nat → Int) (before : TaskList)

private theorem emptyMemory_intact : Intact before (emptyMemory cell) before.tasks := by
  have balanced := emptyMemory_balanced cell
  exact ⟨rfl, balanced.releasedOnce, balanced.released, balanced.followed⟩

/-- `filling_params` cannot report a failure, so the write never does. -/
theorem functimeKernelModule_returns (request : FunctimeKernelModule.Pointers.Request)
    (module after : FunctimeKernelModule.Pointers.Module) (ret : Int)
    (whole : request.headerCopy = .whole)
    (wrote : FunctimeKernelModule.Pointers.memprofileProcWrite env request module =
      some (ret, after)) : ret = 0 := by
  simp only [FunctimeKernelModule.Pointers.memprofileProcWrite, whole] at wrote
  split at wrote
  · cases wrote
  · obtain ⟨visited, _ran, same⟩ := Option.map_eq_some_iff.mp wrote
    cases same
    rfl

private theorem functimeKernelModule_failsIntact (cp : FunctimeKernelModule.Pointers.CpParams)
    (request : FunctimeKernelModule.Pointers.Request) :
    (Write.functimeKernelModule cp request).FailsIntact env cell before ↔
      request.headerCopy.Fails := by
  constructor
  · rintro ⟨memory, processes, ⟨after, wrote⟩, _intact⟩
    by_contra sound
    have whole := request.headerCopy.whole_of_sound sound
    have succeeded := functimeKernelModule_returns env request _ _ _ whole wrote
    cases succeeded
  · intro fails
    obtain ⟨torn, cut⟩ := request.headerCopy.cut_of_fails fails
    refine ⟨emptyMemory cell, before.tasks, ⟨torn, ?_⟩, emptyMemory_intact cell before⟩
    simp only [FunctimeKernelModule.Pointers.memprofileProcWrite, cut]
    rfl

/-- The buffer of a list that could not be copied is never freed. -/
theorem cutMemory_not_intact (left : List Int) :
    ¬ Intact before (fill (alloc true (emptyMemory cell)).1 left (alloc true (emptyMemory cell)).2)
      before.tasks := by
  intro intact
  have once : 0 = 1 := intact.freed 0 Nat.one_pos
  cases once

theorem bothMultiple_not_failsIntact (cp : BothMultiple.CpParams) (request : BothMultiple.Request)
    (whole : request.headerCopy = .whole) (fails : request.buffCopy.Fails)
    (nonempty : byteCount request.header.size ≠ 0) :
    ¬ (Write.bothMultiple cp request).FailsIntact env cell before := by
  have entries : byteCount request.header.size / 4 ≠ 0 :=
    fun none_ => nonempty ((byteCount_entries _).mp none_)
  rintro ⟨memory, processes, ⟨steps, after, ran⟩, intact⟩
  match steps with
  | 0 => cases ran
  | 1 =>
      simp only [BothMultiple.writeRun, BothMultiple.writeStep, whole] at ran
      cases ran
  | 2 =>
      simp only [BothMultiple.writeRun, BothMultiple.writeStep, whole] at ran
      cases ran
  | steps + 3 =>
      simp only [BothMultiple.writeRun, BothMultiple.writeStep, whole,
        BothMultiple.UserParams.copied] at ran
      cases found : env.found (byteCount request.header.size) with
      | false =>
          rw [found] at ran
          simp only [alloc, copyFromUser, if_neg entries] at ran
          cases ran
      | true =>
          rw [found] at ran
          obtain ⟨left, failed⟩ := copyFromUser_fails request.buffCopy request.user
            (alloc true (emptyMemory cell)).1 (.foreign request.header.buff)
            (byteCount request.header.size / 4) (alloc true (emptyMemory cell)).2 fails entries _ rfl
          rw [failed] at ran
          dsimp only at ran
          rw [BothMultiple.writeRun_returned] at ran
          cases ran
          exact cutMemory_not_intact cell before left intact

private theorem bothMultiple_headerFailsIntact (cp : BothMultiple.CpParams)
    (request : BothMultiple.Request) (fails : request.headerCopy.Fails) :
    (Write.bothMultiple cp request).FailsIntact env cell before := by
  obtain ⟨torn, cut⟩ := request.headerCopy.cut_of_fails fails
  refine ⟨emptyMemory cell, before.tasks, ⟨1, torn, ?_⟩, emptyMemory_intact cell before⟩
  simp only [BothMultiple.writeRun, BothMultiple.writeStep, cut]

/-- A failed copy leaves everything intact exactly when it is that of the record. -/
theorem failedCopy_intact (write : Write) :
    (write.CopyFails env → write.FailsIntact env cell before) ↔
      (write.CopyFails env → write.RecordFails) := by
  apply imp_congr_right
  intro failing
  cases write with
  | functimeKernelModule cp request =>
      exact functimeKernelModule_failsIntact env cell before cp request
  | bothMultiple cp request =>
      by_cases headerFails : request.headerCopy.Fails
      · exact iff_of_true (bothMultiple_headerFailsIntact env cell before cp request headerFails)
          headerFails
      · have whole := request.headerCopy.whole_of_sound headerFails
        obtain ⟨buffFails, nonempty⟩ := failing.resolve_left headerFails
        exact iff_of_false
          (bothMultiple_not_failsIntact env cell before cp request whole buffFails nonempty)
          headerFails

end Failing

def plentyEnv : KernelEnv := { gup := .faultIn id, fuel := 8, found := fun _bytes => true }

def sizesCutWrite : Write :=
  .functimeKernelModule
    { size := .null, vmaParam := .null, pageAddr := .null, shouldSkip := false, pid := 0 }
    { header := { size := 0x7000, vmaParam := 0x8000, pageAddr := 0x9000, shouldSkip := true
                  pid := 7 }
      user := fun address _place => if address = 0x8000 then 0 else 1
      headerCopy := .whole
      sizesCopy := .cut [1, 1]
      pagesCopy := .whole
      vmasCopy := .whole }

/-- The write goes on with the pointers from user space, frees them and returns 0. -/
theorem sizesCutWrite_mixed :
    ¬ (sizesCutWrite.CopyFails plentyEnv →
        sizesCutWrite.FailsIntact plentyEnv (fun _number _place => 0) sampleProcesses) ∧
      ∃ memory processes,
        sizesCutWrite.Ends plentyEnv (fun _number _place => 0) sampleProcesses 0 memory processes ∧
        .foreign 0x9000 ∈ memory.followed ∧ .foreign 0x9000 ∈ memory.released := by
  constructor
  · intro intact
    have failing : sizesCutWrite.CopyFails plentyEnv := Or.inr (Or.inl trivial)
    exact (functimeKernelModule_failsIntact _ _ _ _ _).mp (intact failing)
  · refine ⟨_, _, ⟨_, rfl⟩, ?_, ?_⟩
    · decide +kernel
    · decide +kernel

end BlackboxProfiling
