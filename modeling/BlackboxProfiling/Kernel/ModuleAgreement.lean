import BlackboxProfiling.Kernel.BothMultiple
import BlackboxProfiling.Kernel.FunctimeKernelModule
import BlackboxProfiling.Kernel.SdVbs

/-!
The modules against each other: a request of one index to the indexed module does
what the heap request does, and a list of one page does what the one-page modules
do.
-/

namespace BlackboxProfiling.ModuleAgreement

theorem changeArea_settles (gup : GetUserPages) (progresses : gup.Progresses) (shouldSkip : Bool)
    (pages : List Int) (mm : Mm) (vma : Vma) (member : vma ∈ mm.mmap) :
    ∃ ret table, mmPopulateMod gup (vma.pageCount + 1) mm vma.vmStart
        (vma.vmEnd - vma.vmStart) true = some (ret, table) ∧
      ∀ fuel, vma.pageCount < fuel →
        changeArea gup fuel (fun listed => modifyPage (skipPage shouldSkip listed)) pages mm vma =
          some (changedMm shouldSkip pages mm vma table) := by
  obtain ⟨ret, table, populated, changed⟩ := changeArea_returns gup progresses (vma.pageCount + 1)
    shouldSkip pages mm vma member (Nat.lt_succ_self _)
  exact ⟨ret, table, populated, fun fuel enough =>
    changeArea_more gup (vma.pageCount + 1) fuel _ pages mm _ vma enough changed⟩

def requested (pid : Nat) (changed : Mm) (processes : TaskList) : TaskList :=
  processes.withMm (fun task => if task.pid = pid then some changed else task.mm)

theorem bothMultiple_settles (gup : GetUserPages) (progresses : gup.Progresses)
    (cp : BothMultiple.Params) (processes : TaskList) (target : Task) (mm : Mm) (heap : Vma)
    (member : target ∈ processes.tasks) (named : target.pid = cp.pid)
    (atTarget : target.mm = some mm) (chosen : BothMultiple.findHeap mm = some heap) :
    ∃ ret table, mmPopulateMod gup (heap.pageCount + 1) mm heap.vmStart
        (heap.vmEnd - heap.vmStart) true = some (ret, table) ∧
      ∀ fuel, heap.pageCount < fuel →
        BothMultiple.memprofileProcWrite gup fuel ⟨true, true⟩ cp processes =
          some (0, requested cp.pid (changedMm cp.shouldSkip cp.buff mm heap table) processes) := by
  obtain ⟨ret, table, populated, settles⟩ := changeArea_settles gup progresses cp.shouldSkip cp.buff
    mm heap (List.mem_of_find?_eq_some chosen)
  refine ⟨ret, table, populated, ?_⟩
  intro fuel enough
  have changed : BothMultiple.changeHeap gup fuel cp mm heap =
      some (changedMm cp.shouldSkip cp.buff mm heap table) := settles fuel enough
  simp only [BothMultiple.memprofileProcWrite, Bool.true_eq_false, if_false]
  rw [forEachProcess_total (BothMultiple.visitTask gup fuel cp) processes _ ?_]
  · rfl
  · intro task visited
    simp only [BothMultiple.visitTask]
    split
    · rename_i isTarget
      have same := processes.unique task target visited member (isTarget.trans named.symm)
      subst same
      simp only [atTarget, chosen, changed, Option.map_some]
    · rfl

private theorem vmaFinder_single (gup : GetUserPages) (fuel : Nat) (cp : FunctimeKernelModule.Params)
    (mm : Mm) (index : Nat) (vma : Vma) (found : mm.mmap[index]? = some vma)
    (single : cp.vmaParam = [(index : Int)]) :
    FunctimeKernelModule.vmaFinder gup fuel cp mm =
      changeArea gup fuel (FunctimeKernelModule.cacheabilityModifier cp) cp.pageAddr mm vma := by
  obtain ⟨inside, _here⟩ := List.getElem?_eq_some_iff.mp found
  have nonempty : mm.mmap ≠ [] := List.ne_nil_of_length_pos (by omega)
  have sought := FunctimeKernelModule.seekVma_hit index (mm.mmap.length - 0) 0 (Nat.zero_le index) (by omega)
  simp only [FunctimeKernelModule.vmaFinder, if_neg nonempty, single,
    FunctimeKernelModule.vmaFinderLoop, sought, found]
  split
  · rename_i stuck
    exact stuck.symm
  · rename_i changed walked
    exact walked.symm

private theorem findHeap_of_index (mm : Mm) (index : Nat)
    (first : mm.mmap.findIdx? (heapTest mm) = some index) (inside : index < mm.mmap.length) :
    BothMultiple.findHeap mm = some mm.mmap[index] := by
  rw [BothMultiple.findHeap, List.find?_eq_bind_findIdx?_getElem?, first]
  exact List.getElem?_eq_getElem inside

private theorem visitTask_single (gup : GetUserPages) (fuel : Nat) (pages : List Int)
    (shouldSkip : Bool)
    (target : Task) (mm : Mm) (index : Nat) (atTarget : target.mm = some mm)
    (first : mm.mmap.findIdx? (heapTest mm) = some index) :
    FunctimeKernelModule.visitTask gup fuel ⟨[(index : Int)], pages, shouldSkip, target.pid⟩ target =
      BothMultiple.visitTask gup fuel ⟨pages, shouldSkip, target.pid⟩ target := by
  obtain ⟨inside, _passes, _earlier⟩ := List.findIdx?_eq_some_iff_getElem.mp first
  have found : mm.mmap[index]? = some mm.mmap[index] := List.getElem?_eq_getElem inside
  have chosen := findHeap_of_index mm index first inside
  simp only [FunctimeKernelModule.visitTask, BothMultiple.visitTask, if_true, atTarget, chosen,
    vmaFinder_single gup fuel ⟨[(index : Int)], pages, shouldSkip, target.pid⟩ mm index _ found rfl]
  rfl

/-- At every bound on the populate loop the two writes have the same outcome. -/
theorem memprofileProcWrite_eq (gup : GetUserPages) (fuel : Nat) (pages : List Int)
    (shouldSkip : Bool) (processes : TaskList) (target : Task) (mm : Mm) (index : Nat)
    (member : target ∈ processes.tasks) (atTarget : target.mm = some mm)
    (first : mm.mmap.findIdx? (heapTest mm) = some index) :
    FunctimeKernelModule.memprofileProcWrite gup fuel true
        ⟨[(index : Int)], pages, shouldSkip, target.pid⟩ processes =
      BothMultiple.memprofileProcWrite gup fuel ⟨true, true⟩ ⟨pages, shouldSkip, target.pid⟩
        processes := by
  simp only [FunctimeKernelModule.memprofileProcWrite, BothMultiple.memprofileProcWrite,
    Bool.true_eq_false, if_false]
  rw [forEachProcess_congr _ (BothMultiple.visitTask gup fuel ⟨pages, shouldSkip, target.pid⟩)]
  intro task visited
  by_cases isTarget : task.pid = target.pid
  · have same := processes.unique task target visited member isTarget
    subst same
    exact visitTask_single gup fuel pages shouldSkip task mm index atTarget first
  · simp only [FunctimeKernelModule.visitTask, BothMultiple.visitTask, isTarget, if_false]

/-- Both writes return, and leave the same processes behind: every entry and every area
protection is the same. -/
theorem memprofileProcWrite_generalises (gup : GetUserPages) (progresses : gup.Progresses)
    (pages : List Int) (shouldSkip : Bool) (processes : TaskList) (target : Task) (mm : Mm)
    (index : Nat) (member : target ∈ processes.tasks) (atTarget : target.mm = some mm)
    (first : mm.mmap.findIdx? (heapTest mm) = some index) :
    ∃ (enough : Nat) (after : TaskList), ∀ fuel, enough < fuel →
      FunctimeKernelModule.memprofileProcWrite gup fuel true
          ⟨[(index : Int)], pages, shouldSkip, target.pid⟩ processes = some (0, after) ∧
        BothMultiple.memprofileProcWrite gup fuel ⟨true, true⟩ ⟨pages, shouldSkip, target.pid⟩
          processes = some (0, after) := by
  obtain ⟨inside, _passes, _earlier⟩ := List.findIdx?_eq_some_iff_getElem.mp first
  have chosen := findHeap_of_index mm index first inside
  obtain ⟨_ret, _table, _populated, wrote⟩ := bothMultiple_settles gup progresses
    ⟨pages, shouldSkip, target.pid⟩ processes target mm mm.mmap[index] member rfl atTarget chosen
  refine ⟨mm.mmap[index].pageCount, _, fun fuel enough => ⟨?_, wrote fuel enough⟩⟩
  rw [memprofileProcWrite_eq gup fuel pages shouldSkip processes target mm index member atTarget
    first]
  exact wrote fuel enough

theorem memprofileProcWrite_generalises_sample :
    ∃ (enough : Nat) (after : TaskList), ∀ fuel, enough < fuel →
      FunctimeKernelModule.memprofileProcWrite (.faultIn id) fuel true
          ⟨[((0 : Nat) : Int)], [2, 9], true, 7⟩ sampleProcesses = some (0, after) ∧
        BothMultiple.memprofileProcWrite (.faultIn id) fuel ⟨true, true⟩ ⟨[2, 9], true, 7⟩
          sampleProcesses = some (0, after) :=
  memprofileProcWrite_generalises (.faultIn id) (GetUserPages.faultIn_progresses id) [2, 9] true
    sampleProcesses sampleTask sampleMm 0 List.mem_cons_self rfl rfl

theorem skipPage_single (shouldSkip : Bool) (listed address : Nat) :
    skipPage shouldSkip [listed] address = (decide (address = listed) != shouldSkip) := by
  rw [skipPage, searchSkip_eq]
  by_cases here : address = listed <;> cases shouldSkip <;> simp [here]

private theorem findHeap_onlyHeap {mm : Mm} {heap : Vma} (only : OnlyHeap mm heap) :
    BothMultiple.findHeap mm = some heap := by
  rw [BothMultiple.findHeap, ← List.head?_filter, only, List.head?_cons]

/-- What a walk that reaches every process named `mser` does when the target is
the only one of that name. -/
theorem forEachProcess_onlyMser (body : Mm → Option Mm) (processes : TaskList) (target : Task)
    (mm changed : Mm) (member : target ∈ processes.tasks) (named : target.comm = "mser")
    (atTarget : target.mm = some mm)
    (onlyMser : ∀ task ∈ processes.tasks, task.comm = "mser" → task.pid = target.pid)
    (ran : body mm = some changed) :
    forEachProcess (visitMser body) processes =
      some (requested target.pid changed processes) := by
  apply forEachProcess_total
  intro task visited
  by_cases isTarget : task.pid = target.pid
  · have same := processes.unique task target visited member isTarget
    subst same
    simp only [visitMser, named, if_true, atTarget, ran, Option.map_some]
  · have unnamed : task.comm ≠ "mser" := fun isMser => isTarget (onlyMser task visited isMser)
    simp only [visitMser, unnamed, isTarget, if_false]

/-- Two address spaces that differ at most in heap pages at which populating takes a write
fault. These have the same frame and memory type unless they were shared. -/
structure AgreesUpToFaults (gup : GetUserPages) (mm : Mm) (heap : Vma) (left right : Mm) : Prop where
  areas : left.mmap = right.mmap
  entries : ∀ address, address ∉ heap.pageAddrs ∨ heap.writeFaults (mm.pte address) = false →
    left.pte address = right.pte address
  owned : ∀ address ∈ heap.pageAddrs, gup.shared (mm.pte address).pfn = false →
    (left.pte address).pfn = (right.pte address).pfn ∧
      (left.pte address).prot.memType = (right.pte address).prot.memType

theorem walkedHeap_agrees (gup : GetUserPages) (fuel : Nat) (skip : Nat → Bool) (mm : Mm)
    (heap : Vma) (member : heap ∈ mm.mmap)
    (present : ∀ address ∈ heap.pageAddrs, (mm.pte address).present = true) (ret : Int)
    (table : PageTable) (populated : mmPopulateMod gup fuel mm heap.vmStart
      (heap.vmEnd - heap.vmStart) true = some (ret, table)) :
    AgreesUpToFaults gup mm heap (walkedHeap skip mm heap)
      (mm.store heap.vmStart (modifiedTable skip heap.pageAddrs heap.vmPageProt table)
        (modifiedProt skip heap.pageAddrs heap.vmPageProt)) := by
  have keeps (address : Nat) (inside : address ∈ heap.pageAddrs) :=
    mmPopulateMod_keeps gup fuel mm heap member ret table populated address (present address inside)
  constructor
  case areas => rfl
  case entries =>
    intro address unfaulted
    have same : table address = mm.pte address := by
      by_cases inside : address ∈ heap.pageAddrs
      · exact (keeps address inside).same (unfaulted.resolve_left (fun outside => outside inside))
      · exact mmPopulateMod_outside gup fuel mm heap member ret table populated address inside
    simp only [walkedHeap, Mm.store_pte, modifiedTable, same]
  case owned =>
    intro address inside owned
    obtain ⟨_stays, frame, memType⟩ := (keeps address inside).owned owned
    simp only [walkedHeap, Mm.store_pte, modifiedTable]
    split
    · exact ⟨frame.symm, rfl⟩
    · exact ⟨frame.symm, memType.symm⟩

theorem onePage_agrees (gup : GetUserPages) (progresses : gup.Progresses) (shouldSkip : Bool)
    (processes : TaskList) (target : Task) (mm : Mm) (heap : Vma)
    (member : target ∈ processes.tasks) (atTarget : target.mm = some mm) (only : OnlyHeap mm heap)
    (present : ∀ address ∈ heap.pageAddrs, (mm.pte address).present = true) (p : Int) :
    ∃ right, (∀ fuel, heap.pageCount < fuel → BothMultiple.memprofileProcWrite gup fuel ⟨true, true⟩
        ⟨[p], shouldSkip, target.pid⟩ processes = some (0, requested target.pid right processes)) ∧
      AgreesUpToFaults gup mm heap
        (walkedHeap (fun address => decide (address = pageAddr heap.vmStart p) != shouldSkip) mm heap)
        right := by
  obtain ⟨ret, table, populated, wrote⟩ := bothMultiple_settles gup progresses
    ⟨[p], shouldSkip, target.pid⟩ processes target mm heap member rfl atTarget
    (findHeap_onlyHeap only)
  have agrees := walkedHeap_agrees gup (heap.pageCount + 1) (skipPage shouldSkip (listedAddrs [p] heap))
    mm heap only.mem present ret table populated
  refine ⟨_, wrote, ?_⟩
  rw [← walkedHeap_congr (skipPage shouldSkip (listedAddrs [p] heap)) _ mm heap
    (fun address _inside => skipPage_single shouldSkip (pageAddr heap.vmStart p) address)]
  exact agrees

private theorem noncacheable_wrote (processes : TaskList) (target : Task) (mm : Mm) (heap : Vma)
    (member : target ∈ processes.tasks) (named : target.comm = "mser")
    (atTarget : target.mm = some mm)
    (onlyMser : ∀ task ∈ processes.tasks, task.comm = "mser" → task.pid = target.pid)
    (only : OnlyHeap mm heap) (p : Int) :
    AllNoncacheableExceptOneSdVbs.memprofileProcWrite true p processes =
      some (0, requested target.pid
        (walkedHeap (fun address => decide (address = pageAddr heap.vmStart p) != false) mm heap)
        processes) := by
  simp only [AllNoncacheableExceptOneSdVbs.memprofileProcWrite, Bool.true_eq_false, if_false]
  rw [forEachProcess_onlyMser _ processes target mm _ member named atTarget onlyMser
    (AllNoncacheableExceptOneSdVbs.changeMm_onlyHeap p mm heap only)]
  simp only [Bool.bne_false, Option.map_some]

private theorem cacheable_wrote (processes : TaskList) (target : Task) (mm : Mm) (heap : Vma)
    (member : target ∈ processes.tasks) (named : target.comm = "mser")
    (atTarget : target.mm = some mm)
    (onlyMser : ∀ task ∈ processes.tasks, task.comm = "mser" → task.pid = target.pid)
    (only : OnlyHeap mm heap)
    (present : ∀ address ∈ heap.pageAddrs, (mm.pte address).present = true) (p : Int)
    (baseline : 0 ≤ p) (inRange : p ≤ heap.pageCount) :
    AllCacheableExceptOneSdVbs.memprofileProcWrite true p processes =
      some (0, requested target.pid
        (walkedHeap (fun address => decide (address = pageAddr heap.vmStart p) != true) mm heap)
        processes) := by
  simp only [AllCacheableExceptOneSdVbs.memprofileProcWrite, Bool.true_eq_false, if_false,
    Bool.bne_true]
  split
  · -- page number 0 is the baseline: its address lies below the heap
    rename_i none
    subst none
    have unchanged : walkedHeap (fun address => !decide (address = pageAddr heap.vmStart 0)) mm heap =
        mm := by
      apply walkedHeap_none _ mm heap only.mem
      intro address inside
      have elsewhere : address ≠ pageAddr heap.vmStart 0 := by
        intro here
        exact pageAddr_zero_notMem heap (here ▸ inside)
      simp only [elsewhere, decide_false, Bool.not_false]
    have same : requested target.pid mm processes = processes := by
      apply TaskList.withMm_self
      intro task visited
      split
      · rename_i isTarget
        have same := processes.unique task target visited member isTarget
        subst same
        exact atTarget.symm
      · rfl
    rw [unchanged, same]
  · -- the entry of a page that is present lies in a table
    have inside := pageAddr_mem heap p (by omega) inRange
    have tabled : mm.hasTable (pageAddr heap.vmStart p) = true := by
      apply mm.hasTable_of_set
      intro empty
      have here := present _ inside
      rw [empty] at here
      cases here
    rw [forEachProcess_onlyMser (fun mm => some (AllCacheableExceptOneSdVbs.printMem p mm))
      processes target mm _ member named atTarget onlyMser rfl,
      AllCacheableExceptOneSdVbs.printMem_onlyHeap p mm heap only (by omega) inRange tabled]
    rfl

def sampleMser : Task := { pid := 7, comm := "mser", mm := some sampleMm }

def sampleMsers : TaskList := { tasks := [sampleMser], distinct := List.nodup_singleton _ }

def forkedMser : Task := { pid := 7, comm := "mser", mm := some BothMultiple.forkedMm }

def forkedMsers : TaskList := { tasks := [forkedMser], distinct := List.nodup_singleton _ }

end BlackboxProfiling.ModuleAgreement
