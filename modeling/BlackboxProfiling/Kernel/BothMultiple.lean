import BlackboxProfiling.Kernel.Processes
import BlackboxProfiling.Kernel.Populate
import BlackboxProfiling.Kernel.PageModifier

/-!
`both_multiple.c`: one write names a process, a list of page numbers and a flag.
The module picks the first area that passes its heap test, faults the area in and
walks all its pages.
-/

namespace BlackboxProfiling.BothMultiple

/-- The request `cp` once both copies have succeeded; `buff` has `cp.size` entries. -/
structure Params where
  buff : List Int
  shouldSkip : Bool
  pid : Nat

structure CopyOutcome where
  header : Bool
  buff : Bool

def efault : Int := 14

def printMem (cp : Params) (listed : List Nat) (address : Nat)
    (state : PageTable × Pgprot) : Int × (PageTable × Pgprot) :=
  modifyPage (skipPage cp.shouldSkip listed) address state

def findHeap (mm : Mm) : Option Vma := mm.mmap.find? (heapTest mm)

def changeHeap (gup : GetUserPages) (fuel : Nat) (cp : Params) (mm : Mm) (vma : Vma) :
    Option Mm :=
  changeArea gup fuel (printMem cp) cp.buff mm vma

/-- The body of `for_each_process`. A target without an address space is a null
dereference, so there is no result. -/
def visitTask (gup : GetUserPages) (fuel : Nat) (cp : Params) (task : Task) :
    Option (Option Mm) :=
  if task.pid = cp.pid then
    match task.mm with
    | none => none
    | some mm =>
        match findHeap mm with
        | none => some (some mm)
        | some vma => (changeHeap gup fuel cp mm vma).map some
  else some task.mm

def memprofileProcWrite (gup : GetUserPages) (fuel : Nat) (copies : CopyOutcome) (cp : Params)
    (processes : TaskList) : Option (Int × TaskList) :=
  if copies.header = false then some (-efault, processes)
  else if copies.buff = false then some (-efault, processes)
  else (forEachProcess (visitTask gup fuel cp) processes).map (fun after => (0, after))

private theorem changeHeap_eq (gup : GetUserPages) (fuel : Nat) (cp : Params) (mm mm' : Mm) (vma : Vma)
    (changed : changeHeap gup fuel cp mm vma = some mm') :
    ∃ ret table,
      mmPopulateMod gup fuel mm vma.vmStart (vma.vmEnd - vma.vmStart) true = some (ret, table) ∧
        mm' = changedMm cp.shouldSkip cp.buff mm vma table :=
  changeArea_eq gup fuel cp.shouldSkip cp.buff mm mm' vma changed

theorem memprofileProcWrite_visited (gup : GetUserPages) (fuel : Nat) (copies : CopyOutcome)
    (cp : Params) (before after : TaskList)
    (wrote : memprofileProcWrite gup fuel copies cp before = some (0, after)) :
    visitTasks (visitTask gup fuel cp) before.tasks = some after.tasks := by
  simp only [memprofileProcWrite] at wrote
  split at wrote
  · cases wrote
  · split at wrote
    · cases wrote
    · obtain ⟨list, visited, same⟩ := Option.map_eq_some_iff.mp wrote
      cases same
      exact forEachProcess_tasks _ before after visited

/-- A successful write works on the heap area of the target, from whatever page
table the populate step left, and changes no other process. -/
theorem memprofileProcWrite_tasks (gup : GetUserPages) (fuel : Nat) (copies : CopyOutcome)
    (cp : Params) (before after : TaskList) (target : Task) (mm : Mm) (vma : Vma)
    (member : target ∈ before.tasks) (named : target.pid = cp.pid) (atTarget : target.mm = some mm)
    (chosen : findHeap mm = some vma)
    (wrote : memprofileProcWrite gup fuel copies cp before = some (0, after)) :
    ∃ ret table,
      mmPopulateMod gup fuel mm vma.vmStart (vma.vmEnd - vma.vmStart) true = some (ret, table) ∧
      after.tasks = before.tasks.map (fun task =>
        if task.pid = cp.pid then
          { task with mm := some (changedMm cp.shouldSkip cp.buff mm vma table) }
        else task) := by
  have visited := memprofileProcWrite_visited gup fuel copies cp before after wrote
  obtain ⟨left, atVisit, _left⟩ := visitTasks_member _ _ _ visited target member
  simp only [visitTask, named, if_true, atTarget, chosen] at atVisit
  obtain ⟨mm', ran, rfl⟩ := Option.map_eq_some_iff.mp atVisit
  obtain ⟨ret, table, populated, rfl⟩ := changeHeap_eq gup fuel cp mm mm' vma ran
  refine ⟨ret, table, populated, ?_⟩
  rw [visitTasks_map (visitTask gup fuel cp) before.tasks after.tasks visited
    (fun task => if task.pid = cp.pid then some (changedMm cp.shouldSkip cp.buff mm vma table)
      else task.mm)]
  · apply List.map_congr_left
    intro task _present
    split <;> rfl
  · intro task present other atTask
    by_cases isTarget : task.pid = cp.pid
    · have same := before.unique task target present member (isTarget.trans named.symm)
      subst same
      simp only [visitTask, isTarget, if_true, atTarget, chosen, ran, Option.map_some] at atTask
      rw [if_pos isTarget]
      exact (Option.some.inj atTask).symm
    · simp only [visitTask, isTarget, if_false] at atTask
      rw [if_neg isTarget]
      exact (Option.some.inj atTask).symm

/-- The small process right after a fork: its first page is still shared with the child and
write-protected. -/
def forkedMm : Mm :=
  { sampleMm with
    pte := Function.update sampleMm.pte 0x10000 (pfnPte 16 { sampleProt with rdonly := true }) }

def forkedProcesses : TaskList :=
  { tasks := [{ sampleTask with mm := some forkedMm }], distinct := List.nodup_singleton _ }

def resharedMm : Mm :=
  forkedMm.store sampleHeap.vmStart forkedMm.pte (pgprotNoncached sampleHeap.vmPageProt)

def resharedProcesses : TaskList :=
  { tasks := [{ sampleTask with mm := some resharedMm }], distinct := List.nodup_singleton _ }

end BlackboxProfiling.BothMultiple
