import BlackboxProfiling.EventRun
import BlackboxProfiling.Kernel.WriteSteps

/-!
Two writes to `/proc/memprofile` of `both_multiple.c` with their steps interleaved. A
write that has `cp` to itself changes the process it names as the record asks and frees
what it allocated; nothing keeps the other one from copying its record over `cp`.
-/

namespace BlackboxProfiling.BothMultiple

open BlockMemory EventRun

/-- The record of a list: the size is its length, and neither copy fails. A list takes
four bytes an entry of a 32-bit address space. -/
structure ListRequest extends Request where
  length : Nat
  sized : header.size = length
  short : length < 0x40000000
  headerWhole : headerCopy = .whole
  buffWhole : buffCopy = .whole

def ListRequest.params (request : ListRequest) : Params :=
  { buff := (List.range request.length).map (request.user request.header.buff)
    shouldSkip := request.header.shouldSkip
    pid := request.header.pid }

def ListRequest.visit (env : KernelEnv) (request : ListRequest) : Task → Option (Option Mm) :=
  visitTask env.gup env.fuel request.params

private theorem ListRequest.byteCount_length (request : ListRequest) :
    byteCount request.header.size / 4 = request.length := by
  have short := request.short
  unfold byteCount
  rw [request.sized]
  omega

private theorem ListRequest.params_length (request : ListRequest) :
    request.params.buff.length = request.length := by
  rw [ListRequest.params, List.length_map, List.length_range]

structure Holds (request : ListRequest) (module : Module) : Prop where
  size : module.cp.size = request.length
  shouldSkip : module.cp.shouldSkip = request.header.shouldSkip
  pid : module.cp.pid = request.header.pid
  own : module.cp.buff.Own
  list : readList request.user module.memory module.cp.buff request.length =
    some request.params.buff

def ToVisit (env : KernelEnv) (request : ListRequest) (base processes : List Task)
    (next : Nat) : Prop :=
  visitTasks (request.visit env) base =
    (visitTasks (request.visit env) (processes.drop next)).map (processes.take next ++ ·)

def ToWalk (env : KernelEnv) (request : ListRequest) (base processes : List Task) (next : Nat)
    (task : Task) (last : Mm) : Prop :=
  processes[next]? = some task ∧
  visitTasks (request.visit env) base =
    (visitTasks (request.visit env) (processes.drop (next + 1))).map
      (fun rest => processes.take next ++ { task with mm := some last } :: rest)

def listed (request : ListRequest) (vma : Vma) : List Nat := listedAddrs request.params.buff vma

def Underway (env : KernelEnv) (request : ListRequest) (base : List Task) (module : Module) :
    WriteCode → Prop
  | .headerCopied =>
      module.cp = request.header.copied ∧ Balanced module.memory [] ∧ module.processes = base
  | .buffAllocated tempBuff =>
      tempBuff = .foreign request.header.buff ∧
        module.cp = { request.header.copied with buff := module.cp.buff } ∧
        module.cp.buff.Own ∧ Balanced module.memory [module.cp.buff] ∧ module.processes = base
  | .buffCopied =>
      Holds request module ∧ Balanced module.memory [module.cp.buff] ∧ module.processes = base
  | .visiting data next =>
      Holds request module ∧ data.Own ∧ Balanced module.memory [data, module.cp.buff] ∧
        ToVisit env request base module.processes next
  | .listing data next vma =>
      Holds request module ∧ data.Own ∧ Balanced module.memory [data, module.cp.buff] ∧
        ∃ task mm, task.mm = some mm ∧ ToWalk env request base module.processes next task
          (finishWalk request.header.shouldSkip (listed request vma) vma vma.pageAddrs mm)
  | .walking data next vma pageAddr rest =>
      Holds request module ∧ data.Own ∧ pageAddr.Own ∧
        Balanced module.memory [pageAddr, data, module.cp.buff] ∧
        readList request.user module.memory pageAddr request.length =
          some ((listed request vma).map Int.ofNat) ∧
        ∃ task mm, task.mm = some mm ∧ ToWalk env request base module.processes next task
          (finishWalk request.header.shouldSkip (listed request vma) vma rest mm)
  | .dataFreed =>
      Holds request module ∧ Balanced module.memory [module.cp.buff] ∧
        visitTasks (request.visit env) base = some module.processes
  | .entered | .returned _ => False

structure Finished (env : KernelEnv) (request : ListRequest) (base : List Task)
    (module : Module) : Prop where
  balanced : Balanced module.memory []
  visited : visitTasks (request.visit env) base = some module.processes

def Moved (env : KernelEnv) (request : ListRequest) (base : List Task) (module : Module)
    (code : WriteCode) : Prop :=
  Underway env request base module code ∨
    (code = .returned 0 ∧ Finished env request base module)

section Steps

variable (env : KernelEnv) (request : ListRequest) (base : List Task)

theorem Holds.memory (module : Module) (memory : Memory) (processes : List Task)
    (holds : Holds request module)
    (kept : readList request.user memory module.cp.buff request.length =
      readList request.user module.memory module.cp.buff request.length) :
    Holds request { module with memory := memory, processes := processes } :=
  ⟨holds.size, holds.shouldSkip, holds.pid, holds.own, kept.trans holds.list⟩

private theorem setMm_take (processes : List Task) (index : Nat) (mm : Mm) :
    (setMm processes index mm).take index = processes.take index := by
  rw [setMm, List.take_modify]
  exact List.modify_eq_self (by rw [List.length_take]; exact Nat.min_le_left _ _)

private theorem setMm_drop (processes : List Task) (index : Nat) (mm : Mm) :
    (setMm processes index mm).drop (index + 1) = processes.drop (index + 1) :=
  List.drop_modify_of_lt _ _ _ _ (Nat.lt_succ_self index)

private theorem setMm_self (processes : List Task) (index : Nat) (mm : Mm) (task : Task)
    (found : processes[index]? = some task) :
    (setMm processes index mm)[index]? = some { task with mm := some mm } := by
  rw [setMm, List.getElem?_modify_eq, found]
  rfl

theorem ToWalk.left (processes : List Task) (next : Nat) (task : Task) (mm last : Mm)
    (toWalk : ToWalk env request base processes next task last) :
    ToWalk env request base (setMm processes next mm) next { task with mm := some mm } last := by
  obtain ⟨found, visited⟩ := toWalk
  refine ⟨setMm_self processes next mm task found, ?_⟩
  rw [setMm_drop, setMm_take]
  exact visited

private theorem visitTasks_drop (processes : List Task) (next : Nat) (task : Task)
    (found : processes[next]? = some task) (body : Task → Option (Option Mm)) (mm : Option Mm)
    (left : body task = some mm) :
    (visitTasks body (processes.drop next)).map (processes.take next ++ ·) =
      (visitTasks body (processes.drop (next + 1))).map
        (fun rest => processes.take next ++ { task with mm := mm } :: rest) := by
  obtain ⟨inside, here⟩ := List.getElem?_eq_some_iff.mp found
  have split : processes.drop next = task :: processes.drop (next + 1) := by
    rw [← here]
    exact List.drop_eq_getElem_cons inside
  rw [split]
  simp only [visitTasks, left]
  cases visitTasks body (processes.drop (next + 1)) with
  | none => rfl
  | some rest => rfl

theorem ToVisit.same (processes : List Task) (next : Nat) (task : Task)
    (found : processes[next]? = some task)
    (visited : visitTasks (request.visit env) base =
      (visitTasks (request.visit env) (processes.drop (next + 1))).map
        (fun rest => processes.take next ++ task :: rest)) :
    ToVisit env request base processes (next + 1) := by
  obtain ⟨inside, here⟩ := List.getElem?_eq_some_iff.mp found
  unfold ToVisit
  rw [visited, List.take_succ_eq_append_getElem inside, here]
  simp only [List.append_assoc, List.singleton_append]

private theorem visitStep_moved (module after : Module) (data : Ptr) (next : Nat) (code : WriteCode)
    (underway : Underway env request base module (.visiting data next))
    (stepped : visitStep env module data next = some (after, code)) :
    Moved env request base after code := by
  obtain ⟨holds, own, balanced, toVisit⟩ := underway
  left
  unfold visitStep at stepped
  split at stepped
  · rename_i atEnd
    cases stepped
    have beyond : module.processes.length ≤ next := List.getElem?_eq_none_iff.mp atEnd
    refine ⟨holds.memory request module _ _ (readList_release _ _ _ _ _),
      release_balanced data module.memory _ own balanced, ?_⟩
    rw [ToVisit, List.drop_eq_nil_of_le beyond, List.take_of_length_le beyond] at toVisit
    rw [toVisit]
    simp only [visitTasks, Option.map_some, List.append_nil]
  · rename_i task found
    have visitedWith (mm : Option Mm) (left : request.visit env task = some mm) :=
      toVisit.trans (visitTasks_drop module.processes next task found (request.visit env) mm left)
    split at stepped
    · rename_i named
      have target : task.pid = request.params.pid := named.trans holds.pid
      split at stepped
      · rename_i number mm atTask
        split at stepped
        · rename_i noHeap
          cases stepped
          have left : request.visit env task = some task.mm := by
            simp only [ListRequest.visit, visitTask, target, if_true, atTask, noHeap]
          exact ⟨holds, own, balanced,
            ToVisit.same env request base module.processes next task found (visitedWith _ left)⟩
        · rename_i vma chosen
          split at stepped
          · cases stepped
          · rename_i ret table populated
            cases stepped
            have member : vma ∈ mm.mmap := List.mem_of_find?_eq_some chosen
            have left : request.visit env task = some (some (finishWalk request.header.shouldSkip
                (listed request vma) vma vma.pageAddrs { mm with pte := table })) := by
              simp only [ListRequest.visit, visitTask, target, if_true, atTask, chosen,
                changeHeap_finishWalk env request.params mm vma ret table member populated]
              rfl
            refine ⟨holds.memory request module _ _ rfl, own, balanced,
              { task with mm := some { mm with pte := table } }, { mm with pte := table }, rfl, ?_⟩
            apply ToWalk.left
            exact ⟨found, visitedWith _ left⟩
      · cases stepped
    · rename_i other
      cases stepped
      have left : request.visit env task = some task.mm := by
        have notTarget : task.pid ≠ request.params.pid := by
          rw [holds.pid] at other
          exact other
        simp only [ListRequest.visit, visitTask, notTarget, if_false]
      exact ⟨holds, own, balanced,
        ToVisit.same env request base module.processes next task found (visitedWith _ left)⟩

theorem Holds.length (module : Module) (holds : Holds request module) :
    module.cp.size.toNat = request.length := by
  rw [holds.size]
  rfl

private theorem listStep_moved (module after : Module) (data : Ptr) (next : Nat) (vma : Vma)
    (code : WriteCode) (underway : Underway env request base module (.listing data next vma))
    (stepped : listStep env request.toRequest module data next vma = some (after, code)) :
    Moved env request base after code := by
  obtain ⟨holds, own, balanced, task, mm, atTask, toWalk⟩ := underway
  left
  dsimp only [listStep] at stepped
  rw [holds.length request module, readList_alloc, holds.list] at stepped
  split at stepped
  · rename_i pages room same readable
    cases same
    cases stepped
    have allocated := alloc_balanced (env.found (byteCount module.cp.size)) module.memory _ balanced
    have fresh := alloc_own (env.found (byteCount module.cp.size)) module.memory
    have count : ((listed request vma).map Int.ofNat).length = request.length := by
      rw [List.length_map, listed, listedAddrs, List.length_map, request.params_length]
    have reachable (absent : (alloc (env.found (byteCount module.cp.size)) module.memory).1 = .null) :
        (listed request vma).map Int.ofNat = [] := by
      rw [absent] at readable
      simp only [readList] at readable
      split at readable
      · rename_i empty
        exact List.eq_nil_of_length_eq_zero (count.trans empty)
      · cases readable
    refine ⟨holds.memory request module _ _ ?_, own, fresh,
      fill_balanced _ _ _ _ (follow_balanced _ _ _ _ holds.own allocated), ?_, task, mm, atTask,
      toWalk⟩
    · rw [readList_fill_other, readList_follow, readList_alloc]
      intro number here
      exact allocated.apart (List.mem_cons_of_mem data (List.mem_singleton_self _)) number here
    · have read := readList_fill_self request.user
        (follow module.cp.buff request.length
          (alloc (env.found (byteCount module.cp.size)) module.memory).2)
        (alloc (env.found (byteCount module.cp.size)) module.memory).1
        ((listed request vma).map Int.ofNat) fresh reachable
      rw [count] at read
      exact read
  · cases stepped

private theorem walkStep_moved (module after : Module) (data : Ptr) (next : Nat) (vma : Vma)
    (pageAddr : Ptr) (rest : List Nat) (code : WriteCode)
    (underway : Underway env request base module (.walking data next vma pageAddr rest))
    (stepped : walkStep request.toRequest module data next vma pageAddr rest = some (after, code)) :
    Moved env request base after code := by
  obtain ⟨holds, own, pageOwn, balanced, addresses, task, mm, atTask, toWalk⟩ := underway
  left
  cases rest with
  | nil =>
      cases stepped
      refine ⟨holds.memory request module _ _ (readList_release _ _ _ _ _), own,
        release_balanced pageAddr module.memory _ pageOwn balanced, ?_⟩
      obtain ⟨found, visited⟩ := toWalk
      have same : { task with mm := some mm } = task := by rw [← atTask]
      apply ToVisit.same env request base module.processes next task found
      rw [visited]
      simp only [finishWalk, same]
  | cons address rest =>
      obtain ⟨found, visited⟩ := toWalk
      have current : module.processes[next]?.bind Task.mm = some mm := by
        rw [found]
        exact atTask
      have numbers : ((listed request vma).map Int.ofNat).map Int.toNat = listed request vma := by
        rw [List.map_map]
        exact List.map_id _
      simp only [walkStep, holds.length request module, addresses, current, numbers,
        holds.shouldSkip] at stepped
      cases stepped
      refine ⟨holds.memory request module _ _ (readList_follow _ _ _ _ _ _), own, pageOwn,
        follow_balanced _ _ _ _ pageOwn balanced, ?_, _, _, rfl,
        ToWalk.left env request base module.processes next task _ _ ⟨found, visited⟩⟩
      rw [readList_follow]
      exact addresses

theorem enter_underway (module after : Module) (code : WriteCode)
    (balanced : Balanced module.memory [])
    (stepped : writeStep env request.toRequest module .entered = some (after, code)) :
    Underway env request module.processes after code := by
  simp only [writeStep, request.headerWhole] at stepped
  cases stepped
  exact ⟨rfl, balanced, rfl⟩

/-- A write that has `cp` to itself keeps it so until it returns. -/
theorem writeStep_moved (module after : Module) (code next : WriteCode)
    (underway : Underway env request base module code)
    (stepped : writeStep env request.toRequest module code = some (after, next)) :
    Moved env request base after next := by
  cases code with
  | entered => exact absurd underway id
  | returned ret => exact absurd underway id
  | headerCopied =>
      obtain ⟨cp, balanced, same⟩ := underway
      cases stepped
      left
      refine ⟨by rw [cp]; rfl, by rw [cp], alloc_own _ _, alloc_balanced _ _ _ balanced, same⟩
  | buffAllocated tempBuff =>
      obtain ⟨temp, cp, own, balanced, same⟩ := underway
      left
      have size : module.cp.size = request.header.size := by rw [cp]; rfl
      have shouldSkip : module.cp.shouldSkip = request.header.shouldSkip := by rw [cp]; rfl
      have pid : module.cp.pid = request.header.pid := by rw [cp]; rfl
      simp only [writeStep, temp, size, request.byteCount_length, request.buffWhole] at stepped
      split at stepped
      · cases stepped
      · rename_i memory ran
        have impossible := copyFromUser_succeeds _ _ _ _ _ _ _ _ ran (fun fails => absurd fails id)
        cases impossible
      · rename_i memory ran
        cases stepped
        have list := copyFromUser_copied _ _ _ _ _ _ _ own ran
        exact ⟨⟨size.trans request.sized, shouldSkip, pid, own, list⟩,
          copyFromUser_balanced _ _ _ _ _ _ _ _ _ ran balanced, same⟩
  | buffCopied =>
      obtain ⟨holds, balanced, same⟩ := underway
      cases stepped
      left
      refine ⟨holds.memory request module _ _ (readList_alloc _ _ _ _ _), alloc_own _ _,
        alloc_balanced _ _ _ balanced, ?_⟩
      unfold ToVisit
      rw [same]
      simp only [List.drop_zero, List.take_zero, List.nil_append, Option.map_id']
  | visiting data place => exact visitStep_moved env request base module after data place next underway stepped
  | listing data place vma =>
      exact listStep_moved env request base module after data place vma next underway stepped
  | walking data place vma pageAddr rest =>
      exact walkStep_moved env request base module after data place vma pageAddr rest next underway
        stepped
  | dataFreed =>
      obtain ⟨holds, balanced, visited⟩ := underway
      cases stepped
      exact Or.inr ⟨rfl, release_balanced _ _ _ holds.own balanced, visited⟩

private theorem writeRun_moved (steps : Nat) (module : Module) (code : WriteCode)
    (moved : Moved env request base module code) :
    Moved env request base (writeRun env request.toRequest steps module code).1
      (writeRun env request.toRequest steps module code).2 := by
  induction steps generalizing module code with
  | zero => exact moved
  | succ steps ih =>
      rcases moved with underway | ⟨rfl, finished⟩
      · cases stepped : writeStep env request.toRequest module code with
        | none =>
            simp only [writeRun, stepped]
            exact Or.inl underway
        | some next =>
            simp only [writeRun, stepped]
            exact ih next.1 next.2
              (writeStep_moved env request base module next.1 code next.2 underway stepped)
      · exact Or.inr ⟨rfl, finished⟩

/-- A write on its own that returns is the one on lists and frees what it allocated. -/
theorem writeRun_refines (processes : TaskList) (steps : Nat) (module after : Module) (ret : Int)
    (balanced : Balanced module.memory []) (same : module.processes = processes.tasks)
    (ran : writeRun env request.toRequest steps module .entered = (after, .returned ret)) :
    ret = 0 ∧ Balanced after.memory [] ∧
      (memprofileProcWrite env.gup env.fuel ⟨true, true⟩ request.params processes).map
        (fun result => (result.1, result.2.tasks)) = some (0, after.processes) := by
  cases steps with
  | zero => cases ran
  | succ steps =>
      cases entered : writeStep env request.toRequest module .entered with
      | none =>
          simp only [writeRun, entered] at ran
          cases ran
      | some first =>
          simp only [writeRun, entered] at ran
          have underway := enter_underway env request module first.1 first.2 balanced entered
          have moved := writeRun_moved env request module.processes steps first.1 first.2
            (Or.inl underway)
          rw [ran] at moved
          rcases moved with impossible | ⟨returned, finished⟩
          · exact absurd impossible id
          · cases returned
            have visited := finished.visited
            rw [same, ListRequest.visit, ← forEachProcess_map_tasks] at visited
            obtain ⟨list, each, tasks⟩ := Option.map_eq_some_iff.mp visited
            refine ⟨rfl, finished.balanced, ?_⟩
            simp only [memprofileProcWrite, Bool.true_eq_false, if_false, each, Option.map_some,
              tasks]

end Steps

/-! ### Two writes -/

inductive Writer where
  | a
  | b
  deriving DecidableEq, Repr

structure Writes where
  module : Module
  code : Writer → WriteCode

/-- The next step of one writer; a writer that has faulted or returned makes none. -/
def writesStep (env : KernelEnv) (requests : Writer → ListRequest) (state : Writes)
    (writer : Writer) : Writes :=
  match writeStep env (requests writer).toRequest state.module (state.code writer) with
  | none => state
  | some (module, code) =>
      { module := module, code := Function.update state.code writer code }

def startWrites (cp : CpParams) (cell : Nat → Nat → Int) (before : TaskList) : Writes :=
  { module := { cp := cp, memory := emptyMemory cell, processes := before.tasks }
    code := fun _writer => .entered }

def WriteCode.UnderWay : WriteCode → Prop
  | .entered | .returned _ => False
  | _ => True

def Serial (state : Writes) (writer : Writer) : Prop :=
  state.code writer = .entered → ∀ other, other ≠ writer → ¬ (state.code other).UnderWay

instance (code : WriteCode) : Decidable code.UnderWay :=
  match code with
  | .entered | .returned _ => isFalse id
  | .headerCopied | .buffAllocated _ | .buffCopied | .visiting _ _ | .listing _ _ _
  | .walking _ _ _ _ _ | .dataFreed => isTrue trivial

instance (code : WriteCode) : Decidable (code = .entered) :=
  match code with
  | .entered => isTrue rfl
  | .headerCopied | .buffAllocated _ | .buffCopied | .visiting _ _ | .listing _ _ _
  | .walking _ _ _ _ _ | .dataFreed | .returned _ => isFalse (fun same => by cases same)

instance (holds : Writer → Prop) [DecidablePred holds] : Decidable (∀ writer, holds writer) :=
  decidable_of_iff (holds .a ∧ holds .b)
    ⟨fun both writer => match writer with
      | .a => both.1
      | .b => both.2, fun all => ⟨all .a, all .b⟩⟩

instance (state : Writes) (writer : Writer) : Decidable (Serial state writer) :=
  inferInstanceAs (Decidable (state.code writer = .entered →
    ∀ other, other ≠ writer → ¬ (state.code other).UnderWay))

def ChangedAsAsked (env : KernelEnv) (requests : Writer → ListRequest) (task after : Task) :
    Prop :=
  ∃ mm, after = { task with mm := mm } ∧
    (∀ writer, task.pid = (requests writer).header.pid →
      (requests writer).visit env task = some mm) ∧
    ((∀ writer, task.pid ≠ (requests writer).header.pid) → mm = task.mm)

/-- Once both writes have returned, both have succeeded, every process is changed as asked
and every block that was allocated has been freed exactly once. -/
def Unmixed (env : KernelEnv) (requests : Writer → ListRequest) (before : TaskList)
    (state : Writes) : Prop :=
  (∀ writer, ∃ ret, state.code writer = .returned ret) →
    (∀ writer, state.code writer = .returned 0) ∧
    List.Forall₂ (ChangedAsAsked env requests) before.tasks state.module.processes ∧
    ∀ number, number < state.module.memory.count →
      state.module.memory.released.count (.block number) = 1

def writeAll (env : KernelEnv) (requests : Writer → ListRequest) :
    List Writer → List Task → Option (List Task)
  | [], tasks => some tasks
  | writer :: rest, tasks =>
      match visitTasks ((requests writer).visit env) tasks with
      | none => none
      | some visited => writeAll env requests rest visited

def Idle (done : List Writer) (state : Writes) (writer : Writer) : Prop :=
  (writer ∈ done ∧ state.code writer = .returned 0) ∨
    (writer ∉ done ∧ state.code writer = .entered)

/-- The writes in `done` have returned one after the other, and at most one other is
under way. -/
inductive WritesInv (env : KernelEnv) (requests : Writer → ListRequest) (before : TaskList)
    (state : Writes) : Prop where
  | quiet (done : List Writer) (distinct : done.Nodup)
      (balanced : Balanced state.module.memory [])
      (wrote : writeAll env requests done before.tasks = some state.module.processes)
      (idle : ∀ writer, Idle done state writer)
  | busy (done : List Writer) (distinct : done.Nodup) (base : List Task) (writer : Writer)
      (wrote : writeAll env requests done before.tasks = some base)
      (notDone : writer ∉ done)
      (underway : Underway env (requests writer) base state.module (state.code writer))
      (idle : ∀ other, other ≠ writer → Idle done state other)

private theorem writeAll_concat (env : KernelEnv) (requests : Writer → ListRequest) (done : List Writer)
    (writer : Writer) (before base after : List Task)
    (wrote : writeAll env requests done before = some base)
    (visited : visitTasks ((requests writer).visit env) base = some after) :
    writeAll env requests (done ++ [writer]) before = some after := by
  induction done generalizing before with
  | nil =>
      cases wrote
      simp only [List.nil_append, writeAll, visited]
  | cons first rest ih =>
      simp only [writeAll] at wrote
      split at wrote
      · cases wrote
      · rename_i middle here
        simp only [List.cons_append, writeAll, here]
        exact ih middle wrote

private theorem ListRequest.visit_other (env : KernelEnv) (request : ListRequest) (task : Task)
    (other : task.pid ≠ request.header.pid) : request.visit env task = some task.mm :=
  if_neg other

def ChangedBy (env : KernelEnv) (requests : Writer → ListRequest) (done : List Writer)
    (task after : Task) : Prop :=
  ∃ mm, after = { task with mm := mm } ∧
    (∀ writer ∈ done, task.pid = (requests writer).header.pid →
      (requests writer).visit env task = some mm) ∧
    ((∀ writer ∈ done, task.pid ≠ (requests writer).header.pid) → mm = task.mm)

section Serial

variable (env : KernelEnv) (requests : Writer → ListRequest)
variable (different : ∀ left right, left ≠ right →
  (requests left).header.pid ≠ (requests right).header.pid)

private theorem changedBy_none (task : Task) : ChangedBy env requests [] task task :=
  ⟨task.mm, rfl, fun _writer none_ => absurd none_ List.not_mem_nil, fun _none => rfl⟩

include different in
private theorem changedBy_cons (writer : Writer) (rest : List Writer) (fresh : writer ∉ rest)
    (task middle after : Task)
    (earlier : ∃ mm, (requests writer).visit env task = some mm ∧ middle = { task with mm := mm })
    (later : ChangedBy env requests rest middle after) :
    ChangedBy env requests (writer :: rest) task after := by
  obtain ⟨first, visited, rfl⟩ := earlier
  obtain ⟨mm, rfl, asked, untouched⟩ := later
  by_cases named : task.pid = (requests writer).header.pid
  · have onlyHere : ∀ other ∈ rest, task.pid ≠ (requests other).header.pid := by
      intro other member same
      have apart : writer ≠ other := fun equal => fresh (equal ▸ member)
      exact different writer other apart (named.symm.trans same)
    have last : mm = first := untouched onlyHere
    refine ⟨mm, rfl, ?_, ?_⟩
    · intro other member here
      rcases List.mem_cons.mp member with rfl | inRest
      · rw [last]
        exact visited
      · exact absurd here (onlyHere other inRest)
    · intro unnamed
      exact absurd named (unnamed writer List.mem_cons_self)
  · rw [ListRequest.visit_other env (requests writer) task named] at visited
    cases visited
    refine ⟨mm, rfl, ?_, ?_⟩
    · intro other member here
      rcases List.mem_cons.mp member with rfl | inRest
      · exact absurd here named
      · exact asked other inRest here
    · intro unnamed
      exact untouched (fun other member => unnamed other (List.mem_cons_of_mem writer member))

private theorem forall₂_compose {α : Type} (first second both : α → α → Prop)
    (compose : ∀ left middle right, first left middle → second middle right → both left right)
    (lefts middles rights : List α) (earlier : List.Forall₂ first lefts middles)
    (later : List.Forall₂ second middles rights) : List.Forall₂ both lefts rights := by
  induction earlier generalizing rights with
  | nil =>
      cases later
      exact List.Forall₂.nil
  | cons here _others ih =>
      cases later with
      | cons there rest => exact List.Forall₂.cons (compose _ _ _ here there) (ih _ rest)

include different in
/-- Each process is changed by the write that names it and by no other. -/
theorem writeAll_changed (done : List Writer) (distinct : done.Nodup) (before after : List Task)
    (wrote : writeAll env requests done before = some after) :
    List.Forall₂ (ChangedBy env requests done) before after := by
  induction done generalizing before with
  | nil =>
      cases wrote
      exact List.forall₂_same.mpr (fun task _member => changedBy_none env requests task)
  | cons first rest ih =>
      obtain ⟨fresh, restDistinct⟩ := List.nodup_cons.mp distinct
      simp only [writeAll] at wrote
      split at wrote
      · cases wrote
      · rename_i middle here
        exact forall₂_compose _ _ _
          (fun task between after earlier later =>
            changedBy_cons env requests different first rest fresh task between after earlier later)
          before middle after (visitTasks_forall _ before middle here)
          (ih restDistinct middle wrote)

/-! ### Runs in which the writes are serial -/

private theorem Underway.underWay (request : ListRequest) (base : List Task) (module : Module)
    (code : WriteCode) (underway : Underway env request base module code) : code.UnderWay := by
  cases code with
  | entered | returned _ => exact underway
  | _ => trivial

private theorem startWrites_inv (cp : CpParams) (cell : Nat → Nat → Int) (before : TaskList) :
    WritesInv env requests before (startWrites cp cell before) :=
  .quiet [] List.nodup_nil (emptyMemory_balanced cell) rfl
    (fun _writer => Or.inr ⟨List.not_mem_nil, rfl⟩)

private theorem idle_update (done : List Writer) (state : Writes) (module : Module)
    (writer other : Writer) (apart : other ≠ writer) (code : WriteCode)
    (idle : Idle done state other) :
    Idle done { module := module, code := Function.update state.code writer code } other := by
  unfold Idle
  dsimp only
  rw [Function.update_of_ne apart]
  exact idle

private theorem idle_concat (done : List Writer) (state : Writes) (writer other : Writer)
    (apart : other ≠ writer) (idle : Idle done state other) :
    Idle (done ++ [writer]) state other := by
  have same : other ∈ done ++ [writer] ↔ other ∈ done := by
    rw [List.mem_append, List.mem_singleton, or_iff_left apart]
  unfold Idle
  rw [same]
  exact idle

theorem moved_inv (before : TaskList) (state : Writes) (done : List Writer)
    (distinct : done.Nodup) (base : List Task) (writer : Writer)
    (wrote : writeAll env requests done before.tasks = some base) (notDone : writer ∉ done)
    (idle : ∀ other, other ≠ writer → Idle done state other) (after : Module) (code : WriteCode)
    (moved : Moved env (requests writer) base after code) :
    WritesInv env requests before
      { module := after, code := Function.update state.code writer code } := by
  have others (other : Writer) (apart : other ≠ writer) :=
    idle_update done state after writer other apart code (idle other apart)
  rcases moved with underway | ⟨rfl, balanced, visited⟩
  · refine .busy done distinct base writer wrote notDone ?_ others
    dsimp only
    rw [Function.update_self]
    exact underway
  · have more : (done ++ [writer]).Nodup :=
      List.nodup_append.mpr ⟨distinct, List.nodup_singleton _, fun left inDone right inLast same =>
        notDone (List.mem_singleton.mp inLast ▸ same ▸ inDone)⟩
    refine .quiet (done ++ [writer]) more balanced
      (writeAll_concat env requests done writer _ _ _ wrote visited) ?_
    intro other
    by_cases here : other = writer
    · left
      rw [here]
      exact ⟨List.mem_append_right done (List.mem_singleton_self writer), Function.update_self _ _ _⟩
    · exact idle_concat done _ writer other here (others other here)

private theorem writesStep_inv (before : TaskList) (state : Writes) (writer : Writer)
    (inv : WritesInv env requests before state) (serial : Serial state writer) :
    WritesInv env requests before (writesStep env requests state writer) := by
  cases stepped : writeStep env (requests writer).toRequest state.module (state.code writer) with
  | none =>
      simp only [writesStep, stepped]
      exact inv
  | some moved =>
      obtain ⟨after, code⟩ := moved
      simp only [writesStep, stepped]
      cases inv with
      | quiet done distinct balanced wrote idle =>
          rcases idle writer with ⟨_inDone, returned⟩ | ⟨notDone, entered⟩
          · rw [returned] at stepped
            cases stepped
          · rw [entered] at stepped
            exact moved_inv env requests before state done distinct _ writer wrote notDone
              (fun other _apart => idle other) after code
              (Or.inl (enter_underway env _ _ after code balanced stepped))
      | busy done distinct base current wrote notDone underway idle =>
          by_cases own : writer = current
          · subst own
            exact moved_inv env requests before state done distinct base writer wrote notDone idle
              after code (writeStep_moved env _ base _ after _ code underway stepped)
          · rcases idle writer own with ⟨_inDone, returned⟩ | ⟨_notDone, entered⟩
            · rw [returned] at stepped
              cases stepped
            · exact absurd (Underway.underWay env _ base _ _ underway)
                (serial entered current (fun same => own same.symm))

include different in
theorem WritesInv.unmixed (before : TaskList) (state : Writes)
    (inv : WritesInv env requests before state) : Unmixed env requests before state := by
  intro returned
  cases inv with
  | quiet done distinct balanced wrote idle =>
      have finished (writer : Writer) : writer ∈ done ∧ state.code writer = .returned 0 := by
        rcases idle writer with here | ⟨_notDone, entered⟩
        · exact here
        · obtain ⟨ret, ended⟩ := returned writer
          rw [entered] at ended
          cases ended
      refine ⟨fun writer => (finished writer).2, ?_, balanced.releasedOnce⟩
      apply List.Forall₂.imp _ (writeAll_changed env requests different done distinct _ _ wrote)
      rintro task after ⟨mm, left, asked, untouched⟩
      exact ⟨mm, left, fun writer => asked writer (finished writer).1,
        fun unnamed => untouched (fun writer _member => unnamed writer)⟩
  | busy done distinct base current wrote notDone underway idle =>
      obtain ⟨ret, ended⟩ := returned current
      rw [ended] at underway
      exact absurd underway id

include different in
/-- Two requests do not mix when neither write copies its record while the other one is
under way. -/
theorem serialWrites_unmixed (before : TaskList) (cp : CpParams) (cell : Nat → Nat → Int)
    (writers : List Writer)
    (serial : EachStep (writesStep env requests) Serial (startWrites cp cell before) writers) :
    Always (writesStep env requests) (Unmixed env requests before) (startWrites cp cell before)
      writers :=
  always_of_eachStep _ _ _ Serial (writesStep_inv env requests before)
    (WritesInv.unmixed env requests different before) _
    (startWrites_inv env requests cp cell before) writers serial

end Serial

def sampleEnv : KernelEnv := { gup := .faultIn id, fuel := 8, found := fun _bytes => true }

def sampleBoth : TaskList :=
  { tasks := [sampleTask, { sampleTask with pid := 8 }]
    distinct := List.nodup_cons.mpr
      ⟨fun same => absurd (List.mem_singleton.mp same) (Nat.ne_of_lt (Nat.lt_succ_self 7)),
        List.nodup_singleton _⟩ }

/-- The second page of process 7 stays cacheable, the first one of process 8 does not. -/
def sampleWrites : Writer → ListRequest
  | .a =>
      { header := { size := 1, buff := 0x7000, shouldSkip := false, pid := 7 }
        user := fun _address _place => 2
        headerCopy := .whole
        buffCopy := .whole
        length := 1
        sized := rfl
        short := Nat.le_of_ble_eq_true rfl
        headerWhole := rfl
        buffWhole := rfl }
  | .b =>
      { header := { size := 1, buff := 0x9000, shouldSkip := true, pid := 8 }
        user := fun _address _place => 1
        headerCopy := .whole
        buffCopy := .whole
        length := 1
        sized := rfl
        short := Nat.le_of_ble_eq_true rfl
        headerWhole := rfl
        buffWhole := rfl }

def sampleStart : Writes :=
  startWrites { size := 0, buff := .null, shouldSkip := false, pid := 0 }
    (fun _number _place => 0) sampleBoth

theorem serialWrites_unmixed_sample :
    EachStep (writesStep sampleEnv sampleWrites) Serial sampleStart
        (List.replicate 13 .a ++ List.replicate 13 .b) ∧
      Always (writesStep sampleEnv sampleWrites) (Unmixed sampleEnv sampleWrites sampleBoth)
        sampleStart (List.replicate 13 .a ++ List.replicate 13 .b) ∧
      ∀ writer, (run (writesStep sampleEnv sampleWrites) sampleStart
        (List.replicate 13 .a ++ List.replicate 13 .b)).code writer = .returned 0 := by
  have serial : EachStep (writesStep sampleEnv sampleWrites) Serial sampleStart
      (List.replicate 13 .a ++ List.replicate 13 .b) := by decide +kernel
  have different (left right : Writer) (apart : left ≠ right) :
      (sampleWrites left).header.pid ≠ (sampleWrites right).header.pid := by
    revert left right
    decide
  refine ⟨serial, serialWrites_unmixed sampleEnv sampleWrites different sampleBoth _ _ _ serial, ?_⟩
  intro writer
  cases writer with
  | a => rfl
  | b => rfl

/-- The first write has its list; the second one runs to its end; the first one goes on. -/
def interleaved : List Writer :=
  List.replicate 4 .a ++ List.replicate 13 .b ++ List.replicate 9 .a

/-- The first write goes on with the record and the freed list of the second one: its own
list is never freed. -/
theorem interleaved_mixed :
    ¬ Always (writesStep sampleEnv sampleWrites) (Unmixed sampleEnv sampleWrites sampleBoth)
      sampleStart interleaved := by
  intro always
  have ended (writer : Writer) : (run (writesStep sampleEnv sampleWrites) sampleStart
      interleaved).code writer = .returned 0 := by
    cases writer with
    | a => rfl
    | b => rfl
  obtain ⟨_succeeded, _changed, freed⟩ := always.last (fun writer => ⟨0, ended writer⟩)
  have given : 0 < (run (writesStep sampleEnv sampleWrites) sampleStart
      interleaved).module.memory.count := by decide +kernel
  have never : (run (writesStep sampleEnv sampleWrites) sampleStart
      interleaved).module.memory.released.count (.block 0) = 0 := by decide +kernel
  have once := freed 0 given
  rw [never] at once
  cases once

end BlackboxProfiling.BothMultiple
