import BlackboxProfiling.Kernel.AllCacheableExceptOne

/-!
`all_noncacheable_except_one_sd_vbs.c` and `all_cacheable_except_one_sd_vbs.c`:
the one-page modules for the vision benchmarks. Both work on every process named
`mser` and on every area of it that passes the heap test.
-/

namespace BlackboxProfiling

def visitMser (body : Mm → Option Mm) (task : Task) : Option (Option Mm) :=
  if task.comm = "mser" then
    match task.mm with
    | none => none
    | some mm => (body mm).map some
  else some task.mm

namespace AllNoncacheableExceptOneSdVbs

def efault : Int := 14

/-- `skipped` is `data->page_addr`. -/
def printMem (skipped address : Nat) (state : PageTable × Pgprot) : Int × (PageTable × Pgprot) :=
  modifyPage (fun addr => decide (addr = skipped)) address state

def changeAreas (p : Int) : List Vma → Mm → Mm
  | [], mm => mm
  | vma :: rest, mm =>
      if heapTest mm vma then
        let walked := applyToPageRange vma.vmStart (vma.vmEnd - vma.vmStart)
          (printMem (pageAddr vma.vmStart p)) (mm.pte, vma.vmPageProt)
        changeAreas p rest (mm.store vma.vmStart walked.2.1 walked.2.2)
      else changeAreas p rest mm

/-- A debug line reads the protection of the first area before the loop, so a
process without areas is a null dereference. -/
def changeMm (p : Int) (mm : Mm) : Option Mm :=
  if mm.mmap = [] then none else some (changeAreas p mm.mmap mm)

def memprofileProcWrite (copied : Bool) (p : Int) (processes : TaskList) :
    Option (Int × TaskList) :=
  if copied = false then some (-efault, processes)
  else (forEachProcess (visitMser (changeMm p)) processes).map (fun after => (0, after))

end AllNoncacheableExceptOneSdVbs

namespace AllCacheableExceptOneSdVbs

def efault : Int := 14

def printMem (p : Int) (mm : Mm) : Mm := AllCacheableExceptOne.printMem p mm

def memprofileProcWrite (copied : Bool) (p : Int) (processes : TaskList) :
    Option (Int × TaskList) :=
  if copied = false then some (-efault, processes)
  else if p = 0 then some (0, processes)
  else (forEachProcess (visitMser (fun mm => some (printMem p mm))) processes).map
    (fun after => (0, after))

end AllCacheableExceptOneSdVbs

def OnlyHeap (mm : Mm) (heap : Vma) : Prop := mm.mmap.filter (heapTest mm) = [heap]

theorem OnlyHeap.mem {mm : Mm} {heap : Vma} (only : OnlyHeap mm heap) : heap ∈ mm.mmap := by
  have listed : heap ∈ mm.mmap.filter (heapTest mm) := by
    rw [only]
    exact List.mem_singleton_self heap
  exact (List.mem_filter.mp listed).1

theorem OnlyHeap.nonempty {mm : Mm} {heap : Vma} (only : OnlyHeap mm heap) : mm.mmap ≠ [] :=
  List.ne_nil_of_mem only.mem

theorem heapLoop_onlyHeap (loop : List Vma → Mm → Mm) (work : Mm → Vma → Mm)
    (nil : ∀ mm, loop [] mm = mm)
    (cons : ∀ vma rest mm, loop (vma :: rest) mm =
      if heapTest mm vma then loop rest (work mm vma) else loop rest mm)
    (sameTest : ∀ mm vma other, heapTest (work mm vma) other = heapTest mm other)
    (heap : Vma) (areas : List Vma) (mm : Mm) (only : areas.filter (heapTest mm) = [heap]) :
    loop areas mm = work mm heap := by
  have others (rest : List Vma) (state : Mm) (none : rest.filter (heapTest state) = []) :
      loop rest state = state := by
    induction rest with
    | nil => exact nil state
    | cons vma rest ih =>
        have fails := List.filter_eq_nil_iff.mp none vma List.mem_cons_self
        rw [List.filter_cons_of_neg fails] at none
        rw [cons, if_neg fails, ih none]
  induction areas with
  | nil => cases only
  | cons vma rest ih =>
      rw [cons]
      split
      · rename_i passes
        rw [List.filter_cons_of_pos passes] at only
        obtain ⟨rfl, noMore⟩ := List.cons.inj only
        apply others
        rw [← noMore]
        exact List.filter_congr (fun other _member => sameTest mm vma other)
      · rename_i fails
        rw [List.filter_cons_of_neg fails] at only
        exact ih only

def walkedHeap (skip : Nat → Bool) (mm : Mm) (heap : Vma) : Mm :=
  mm.store heap.vmStart (modifiedTable skip heap.pageAddrs heap.vmPageProt mm.pte)
    (modifiedProt skip heap.pageAddrs heap.vmPageProt)

theorem walkedHeap_congr (left right : Nat → Bool) (mm : Mm) (heap : Vma)
    (agree : ∀ address ∈ heap.pageAddrs, left address = right address) :
    walkedHeap left mm heap = walkedHeap right mm heap := by
  have sameTable : modifiedTable left heap.pageAddrs heap.vmPageProt mm.pte =
      modifiedTable right heap.pageAddrs heap.vmPageProt mm.pte := by
    funext address
    by_cases inside : address ∈ heap.pageAddrs
    · simp only [modifiedTable, agree address inside]
    · rw [modifiedTable_outside _ _ _ _ _ inside, modifiedTable_outside _ _ _ _ _ inside]
  have sameProt : modifiedProt left heap.pageAddrs heap.vmPageProt =
      modifiedProt right heap.pageAddrs heap.vmPageProt := by
    have sameAny : heap.pageAddrs.any (fun address => !left address) =
        heap.pageAddrs.any (fun address => !right address) := by
      rw [Bool.eq_iff_iff, List.any_eq_true, List.any_eq_true]
      constructor
      · rintro ⟨address, inside, chosen⟩
        exact ⟨address, inside, by rw [← agree address inside]; exact chosen⟩
      · rintro ⟨address, inside, chosen⟩
        exact ⟨address, inside, by rw [agree address inside]; exact chosen⟩
    rw [modifiedProt, modifiedProt, sameAny]
  rw [walkedHeap, walkedHeap, sameTable, sameProt]

theorem walkedHeap_none (skip : Nat → Bool) (mm : Mm) (heap : Vma) (member : heap ∈ mm.mmap)
    (skipped : ∀ address ∈ heap.pageAddrs, skip address = true) :
    walkedHeap skip mm heap = mm := by
  have sameTable : modifiedTable skip heap.pageAddrs heap.vmPageProt mm.pte = mm.pte := by
    funext address
    by_cases inside : address ∈ heap.pageAddrs
    · exact modifiedTable_skipped _ _ _ _ _ (skipped address inside)
    · exact modifiedTable_outside _ _ _ _ _ inside
  have sameProt : modifiedProt skip heap.pageAddrs heap.vmPageProt = heap.vmPageProt := by
    apply if_neg
    rw [List.any_eq_true]
    rintro ⟨address, inside, chosen⟩
    rw [skipped address inside] at chosen
    cases chosen
  have sameAreas : setProtAt heap.vmStart heap.vmPageProt mm.mmap = mm.mmap := by
    rw [setProtAt]
    conv_rhs => rw [← List.map_id mm.mmap]
    apply List.map_congr_left
    intro vma present
    by_cases here : vma.vmStart = heap.vmStart
    · have same : vma = heap := by
        by_contra different
        have separated := mm.areas_separated vma heap present member different
        have nonempty := vma.nonempty
        have heapNonempty := heap.nonempty
        omega
      rw [if_pos here, same]
      rfl
    · rw [if_neg here]
      rfl
  simp only [walkedHeap, Mm.store, sameTable, sameProt, sameAreas]

namespace AllNoncacheableExceptOneSdVbs

private theorem changeAreas_onlyHeap (p : Int) (heap : Vma) (areas : List Vma) (mm : Mm)
    (only : areas.filter (heapTest mm) = [heap]) :
    changeAreas p areas mm =
      walkedHeap (fun address => decide (address = pageAddr heap.vmStart p)) mm heap := by
  have walked (state : Mm) (vma : Vma) := applyToPageRange_modifyPage
    (fun address => decide (address = pageAddr vma.vmStart p)) vma.vmStart
    (vma.vmEnd - vma.vmStart) state.pte vma.vmPageProt
  apply heapLoop_onlyHeap (changeAreas p)
    (fun state vma =>
      walkedHeap (fun address => decide (address = pageAddr vma.vmStart p)) state vma)
    (fun _state => rfl) _ (fun _state _vma _other => rfl) heap areas mm only
  intro vma rest state
  have printed : printMem (pageAddr vma.vmStart p) =
      modifyPage (fun address => decide (address = pageAddr vma.vmStart p)) := rfl
  simp only [changeAreas, printed, walked]
  rfl

theorem changeMm_onlyHeap (p : Int) (mm : Mm) (heap : Vma) (only : OnlyHeap mm heap) :
    changeMm p mm =
      some (walkedHeap (fun address => decide (address = pageAddr heap.vmStart p)) mm heap) := by
  rw [changeMm, if_neg only.nonempty, changeAreas_onlyHeap p heap mm.mmap mm only]

end AllNoncacheableExceptOneSdVbs

namespace AllCacheableExceptOneSdVbs

open AllCacheableExceptOne (setPage printMemLoop)

private theorem printMemLoop_onlyHeap (p : Int) (heap : Vma) (areas : List Vma) (mm : Mm)
    (only : areas.filter (heapTest mm) = [heap]) :
    printMemLoop p areas mm = setPage p mm heap :=
  heapLoop_onlyHeap (printMemLoop p) (setPage p) (fun _state => rfl)
    (fun _vma _rest _state => rfl) (AllCacheableExceptOne.setPage_heapTest p) heap areas mm only

/-- The direct walk to one page of the heap is a walk over all of them that skips
the others. -/
theorem setPage_eq_walkedHeap (p : Int) (mm : Mm) (heap : Vma) (positive : 1 ≤ p)
    (inRange : p ≤ heap.pageCount) (tabled : mm.hasTable (pageAddr heap.vmStart p) = true) :
    setPage p mm heap =
      walkedHeap (fun address => !decide (address = pageAddr heap.vmStart p)) mm heap := by
  have inside := pageAddr_mem heap p positive inRange
  have sameTable :
      Function.update mm.pte (pageAddr heap.vmStart p)
          (pfnPte (ptePfn (mm.pte (pageAddr heap.vmStart p))) (pgprotNoncached heap.vmPageProt)) =
        modifiedTable (fun address => !decide (address = pageAddr heap.vmStart p)) heap.pageAddrs
          heap.vmPageProt mm.pte := by
    funext address
    by_cases here : address = pageAddr heap.vmStart p
    · rw [here, Function.update_self, modifiedTable_chosen _ _ _ _ _ inside (by simp)]
    · rw [Function.update_of_ne here, modifiedTable_skipped _ _ _ _ _ (by simp [here])]
  have sameProt :
      modifiedProt (fun address => !decide (address = pageAddr heap.vmStart p)) heap.pageAddrs
        heap.vmPageProt = pgprotNoncached heap.vmPageProt := by
    apply if_pos
    rw [List.any_eq_true]
    exact ⟨pageAddr heap.vmStart p, inside, by simp⟩
  rw [walkedHeap, ← sameTable, sameProt]
  exact if_pos tabled

theorem printMem_onlyHeap (p : Int) (mm : Mm) (heap : Vma) (only : OnlyHeap mm heap)
    (positive : 1 ≤ p) (inRange : p ≤ heap.pageCount)
    (tabled : mm.hasTable (pageAddr heap.vmStart p) = true) :
    printMem p mm =
      walkedHeap (fun address => !decide (address = pageAddr heap.vmStart p)) mm heap := by
  rw [← setPage_eq_walkedHeap p mm heap positive inRange tabled]
  exact printMemLoop_onlyHeap p heap mm.mmap mm only

end AllCacheableExceptOneSdVbs

end BlackboxProfiling
