import BlackboxProfiling.Kernel.AddressSpace

/-!
The process list and the `for_each_process` loop of the modules. The body of the
loop only ever replaces the address space of the process it is given.
-/

namespace BlackboxProfiling

/-- A kernel thread has no address space. -/
structure Task where
  pid : Nat
  comm : String
  mm : Option Mm

/-- A pid names one process; each has an address space of its own. -/
structure TaskList where
  tasks : List Task
  distinct : (tasks.map Task.pid).Nodup

def visitTasks (body : Task → Option (Option Mm)) : List Task → Option (List Task)
  | [] => some []
  | task :: rest =>
      match body task, visitTasks body rest with
      | some mm, some tasks => some ({ task with mm := mm } :: tasks)
      | _, _ => none

private theorem visitTasks_cons (body : Task → Option (Option Mm)) (task : Task)
    (rest after : List Task)
    (visited : visitTasks body (task :: rest) = some after) :
    ∃ mm tasks, body task = some mm ∧ visitTasks body rest = some tasks ∧
      after = { task with mm := mm } :: tasks := by
  simp only [visitTasks] at visited
  split at visited
  · rename_i mm tasks atTask atRest
    exact ⟨mm, tasks, atTask, atRest, (Option.some.inj visited).symm⟩
  · cases visited

private theorem visitTasks_pids (body : Task → Option (Option Mm)) (before after : List Task)
    (visited : visitTasks body before = some after) :
    after.map Task.pid = before.map Task.pid := by
  induction before generalizing after with
  | nil =>
      cases visited
      rfl
  | cons task rest ih =>
      obtain ⟨mm, tasks, _atTask, atRest, rfl⟩ := visitTasks_cons body task rest after visited
      simp only [List.map_cons, ih tasks atRest]

def forEachProcess (body : Task → Option (Option Mm)) (list : TaskList) : Option TaskList :=
  match visited : visitTasks body list.tasks with
  | none => none
  | some tasks => some ⟨tasks, by
      rw [visitTasks_pids body list.tasks tasks visited]
      exact list.distinct⟩

theorem forEachProcess_tasks (body : Task → Option (Option Mm)) (before after : TaskList)
    (visited : forEachProcess body before = some after) :
    visitTasks body before.tasks = some after.tasks := by
  unfold forEachProcess at visited
  split at visited
  · cases visited
  · rename_i tasks found
    cases visited
    exact found

theorem visitTasks_map (body : Task → Option (Option Mm)) (before after : List Task)
    (visited : visitTasks body before = some after) (left : Task → Option Mm)
    (bodies : ∀ task ∈ before, ∀ mm, body task = some mm → mm = left task) :
    after = before.map (fun task => { task with mm := left task }) := by
  induction before generalizing after with
  | nil =>
      cases visited
      rfl
  | cons task rest ih =>
      obtain ⟨mm, tasks, atTask, atRest, rfl⟩ := visitTasks_cons body task rest after visited
      have here := bodies task List.mem_cons_self mm atTask
      have others := ih tasks atRest
        (fun other member => bodies other (List.mem_cons_of_mem task member))
      rw [here, others, List.map_cons]

theorem visitTasks_member (body : Task → Option (Option Mm)) (before after : List Task)
    (visited : visitTasks body before = some after) (task : Task) (member : task ∈ before) :
    ∃ mm, body task = some mm ∧ { task with mm := mm } ∈ after := by
  induction before generalizing after with
  | nil => cases member
  | cons head rest ih =>
      obtain ⟨mm, tasks, atHead, atRest, rfl⟩ := visitTasks_cons body head rest after visited
      rcases List.mem_cons.mp member with rfl | later
      · exact ⟨mm, atHead, List.mem_cons_self⟩
      · obtain ⟨other, atTask, present⟩ := ih tasks atRest later
        exact ⟨other, atTask, List.mem_cons_of_mem _ present⟩

theorem visitTasks_forall (body : Task → Option (Option Mm)) (before after : List Task)
    (visited : visitTasks body before = some after) :
    List.Forall₂ (fun task left => ∃ mm, body task = some mm ∧ left = { task with mm := mm })
      before after := by
  induction before generalizing after with
  | nil =>
      cases visited
      exact List.Forall₂.nil
  | cons task rest ih =>
      obtain ⟨mm, tasks, atTask, atRest, rfl⟩ := visitTasks_cons body task rest after visited
      exact List.Forall₂.cons ⟨mm, atTask, rfl⟩ (ih tasks atRest)

def TaskList.withMm (list : TaskList) (left : Task → Option Mm) : TaskList :=
  { tasks := list.tasks.map (fun task => { task with mm := left task })
    distinct := by
      rw [List.map_map]
      exact list.distinct }

private theorem visitTasks_total (body : Task → Option (Option Mm)) (left : Task → Option Mm)
    (tasks : List Task) (bodies : ∀ task ∈ tasks, body task = some (left task)) :
    visitTasks body tasks = some (tasks.map (fun task => { task with mm := left task })) := by
  induction tasks with
  | nil => rfl
  | cons task rest ih =>
      have others := ih (fun other member => bodies other (List.mem_cons_of_mem task member))
      simp only [visitTasks, bodies task List.mem_cons_self, others, List.map_cons]

private theorem visitTasks_congr (left right : Task → Option (Option Mm)) (tasks : List Task)
    (agree : ∀ task ∈ tasks, left task = right task) :
    visitTasks left tasks = visitTasks right tasks := by
  induction tasks with
  | nil => rfl
  | cons task rest ih =>
      have others := ih (fun other member => agree other (List.mem_cons_of_mem task member))
      simp only [visitTasks, agree task List.mem_cons_self, others]

theorem forEachProcess_map_tasks (body : Task → Option (Option Mm)) (list : TaskList) :
    (forEachProcess body list).map TaskList.tasks = visitTasks body list.tasks := by
  unfold forEachProcess
  split
  · rename_i stuck
    exact stuck.symm
  · rename_i tasks found
    exact found.symm

theorem TaskList.tasks_injective : Function.Injective TaskList.tasks := by
  rintro ⟨left, _leftDistinct⟩ ⟨right, _rightDistinct⟩ same
  cases same
  rfl

theorem TaskList.withMm_self (list : TaskList) (left : Task → Option Mm)
    (same : ∀ task ∈ list.tasks, left task = task.mm) : list.withMm left = list := by
  apply TaskList.tasks_injective
  rw [TaskList.withMm]
  conv_rhs => rw [← List.map_id list.tasks]
  apply List.map_congr_left
  intro task member
  rw [same task member]
  rfl

theorem forEachProcess_congr (left right : Task → Option (Option Mm)) (list : TaskList)
    (agree : ∀ task ∈ list.tasks, left task = right task) :
    forEachProcess left list = forEachProcess right list := by
  apply Option.map_injective TaskList.tasks_injective
  rw [forEachProcess_map_tasks, forEachProcess_map_tasks]
  exact visitTasks_congr left right list.tasks agree

theorem forEachProcess_total (body : Task → Option (Option Mm)) (list : TaskList)
    (left : Task → Option Mm) (bodies : ∀ task ∈ list.tasks, body task = some (left task)) :
    forEachProcess body list = some (list.withMm left) := by
  apply Option.map_injective TaskList.tasks_injective
  rw [forEachProcess_map_tasks]
  exact visitTasks_total body left list.tasks bodies

theorem TaskList.unique (list : TaskList) (left right : Task) (leftMember : left ∈ list.tasks)
    (rightMember : right ∈ list.tasks) (same : left.pid = right.pid) : left = right :=
  List.inj_on_of_nodup_map list.distinct leftMember rightMember same

def sampleProt : Pgprot :=
  { memType := .writeback, present := true, young := true, dirty := false, rdonly := false
    user := true, xn := true }

def sampleHeap : Vma :=
  { vmStart := 0x10000
    vmEnd := 0x13000
    vmPageProt := sampleProt
    vmFlags := { read := true, write := true, exec := false, shared := false, io := false
                 pfnmap := false }
    vmFile := false
    nonempty := by decide
    bounded := by decide
    startAligned := by decide
    endAligned := by decide }

def sampleMm : Mm :=
  { mmap := [sampleHeap]
    startBrk := 0x10000
    brk := 0x12800
    tables := fun _span => true
    pte := fun address => pfnPte (address / pageSize) sampleProt
    sorted := List.pairwise_singleton _ _
    brkOrdered := by decide }

def sampleTask : Task := { pid := 7, comm := "tracee", mm := some sampleMm }

def sampleProcesses : TaskList := { tasks := [sampleTask], distinct := List.nodup_singleton _ }

end BlackboxProfiling
