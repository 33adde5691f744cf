import BlackboxProfiling.Kernel.Processes
import BlackboxProfiling.Kernel.PageModifier

/-!
`all_cacheable_except_one.c`: a write makes page `p` of every area that passes
the heap test noncacheable, in every process named `hello`. Nothing undoes an
earlier write, so a sequence of writes leaves the union of its pages behind.
-/

namespace BlackboxProfiling.AllCacheableExceptOne

def efault : Int := 14

/-- The walk down to the entry looks at no level for being empty; without a second-level
table it ends at a word that is no entry, and that one is set. -/
def setPage (p : Int) (mm : Mm) (vma : Vma) : Mm :=
  let address := pageAddr vma.vmStart p
  let vmPageProt := pgprotNoncached vma.vmPageProt
  if mm.hasTable address then
    let newpte := pfnPte (ptePfn (mm.pte address)) vmPageProt
    mm.store vma.vmStart (Function.update mm.pte address newpte) vmPageProt
  else mm.store vma.vmStart mm.pte vmPageProt

/-- The loop over the areas; it does not stop at the first that passes the test. -/
def printMemLoop (p : Int) : List Vma → Mm → Mm
  | [], mm => mm
  | vma :: rest, mm =>
      if heapTest mm vma then printMemLoop p rest (setPage p mm vma)
      else printMemLoop p rest mm

def printMem (p : Int) (mm : Mm) : Mm := printMemLoop p mm.mmap mm

def visitTask (p : Int) (task : Task) : Option (Option Mm) :=
  if task.comm = "hello" then
    match task.mm with
    | none => none
    | some mm => some (some (printMem p mm))
  else some task.mm

def memprofileProcWrite (copied : Bool) (p : Int) (processes : TaskList) :
    Option (Int × TaskList) :=
  if copied = false then some (-efault, processes)
  else (forEachProcess (visitTask p) processes).map (fun after => (0, after))

def writeAll : List Int → TaskList → Option TaskList
  | [], processes => some processes
  | p :: rest, processes =>
      match memprofileProcWrite true p processes with
      | none => none
      | some (_ret, after) => writeAll rest after

def heapStarts (mm : Mm) : List Nat := (mm.mmap.filter (heapTest mm)).map Vma.vmStart

private theorem mem_heapStarts (mm : Mm) (start : Nat) :
    start ∈ heapStarts mm ↔ ∃ vma ∈ mm.mmap, heapTest mm vma = true ∧ vma.vmStart = start := by
  simp only [heapStarts, List.mem_map, List.mem_filter, and_assoc]

private theorem setProtAt_heapStarts (startBrk brk start : Nat) (prot : Pgprot)
    (areas : List Vma) :
    (((setProtAt start prot areas).filter
        (fun vma => decide (vma.vmStart ≤ brk) && decide (startBrk ≤ vma.vmEnd))).map
      Vma.vmStart) =
      ((areas.filter
        (fun vma => decide (vma.vmStart ≤ brk) && decide (startBrk ≤ vma.vmEnd))).map
      Vma.vmStart) := by
  induction areas with
  | nil => rfl
  | cons vma rest ih =>
      simp only [setProtAt, List.map_cons, List.filter_cons, Vma.protAt_vmStart,
        Vma.protAt_vmEnd] at ih ⊢
      split
      · rw [List.map_cons, List.map_cons, ih, Vma.protAt_vmStart]
      · exact ih

theorem setPage_eq (p : Int) (mm : Mm) (vma : Vma) :
    ∃ table, setPage p mm vma =
      mm.store vma.vmStart table (pgprotNoncached vma.vmPageProt) := by
  unfold setPage
  dsimp only
  split
  · exact ⟨_, rfl⟩
  · exact ⟨_, rfl⟩

theorem setPage_heapTest (p : Int) (mm : Mm) (vma other : Vma) :
    heapTest (setPage p mm vma) other = heapTest mm other := by
  obtain ⟨table, stored⟩ := setPage_eq p mm vma
  rw [stored]
  rfl

theorem setPage_switched (p : Int) (mm : Mm) (vma : Vma)
    (tabled : mm.hasTable (pageAddr vma.vmStart p) = true) :
    (setPage p mm vma).pte (pageAddr vma.vmStart p) =
      pfnPte (ptePfn (mm.pte (pageAddr vma.vmStart p))) (pgprotNoncached vma.vmPageProt) := by
  simp only [setPage, tabled, if_true, Mm.store_pte, Function.update_self]

theorem setPage_kept (p : Int) (mm : Mm) (vma : Vma) (address : Nat)
    (left : address ≠ pageAddr vma.vmStart p ∨ mm.hasTable address = false) :
    (setPage p mm vma).pte address = mm.pte address := by
  unfold setPage
  dsimp only
  split
  · rename_i tabled
    have elsewhere : address ≠ pageAddr vma.vmStart p := by
      rcases left with elsewhere | missing
      · exact elsewhere
      · rintro rfl
        rw [missing] at tabled
        cases tabled
    simp only [Mm.store_pte, Function.update_of_ne elsewhere]
  · rfl

private theorem setPage_heapStarts (p : Int) (mm : Mm) (vma : Vma) :
    heapStarts (setPage p mm vma) = heapStarts mm := by
  obtain ⟨table, stored⟩ := setPage_eq p mm vma
  rw [stored]
  exact setProtAt_heapStarts mm.startBrk mm.brk vma.vmStart (pgprotNoncached vma.vmPageProt) mm.mmap

private theorem setPage_noncached_iff (p : Int) (mm : Mm) (vma : Vma) (address : Nat) :
    ((setPage p mm vma).pte address).cacheable = false ↔
      (mm.pte address).cacheable = false ∨ pageAddr vma.vmStart p = address := by
  by_cases here : address = pageAddr vma.vmStart p
  · subst address
    cases tabled : mm.hasTable (pageAddr vma.vmStart p) with
    | true =>
        rw [setPage_switched p mm vma tabled]
        exact iff_of_true (pfnPte_noncached_cacheable _ _) (Or.inr rfl)
    | false =>
        -- an entry without a table counts as empty, which is not cacheable
        rw [setPage_kept p mm vma _ (Or.inr tabled), mm.pte_of_noTable _ tabled]
        exact iff_of_true rfl (Or.inr rfl)
  · rw [setPage_kept p mm vma address (Or.inl here)]
    exact (or_iff_left (fun same => here same.symm)).symm

private theorem printMemLoop_heapStarts (p : Int) (areas : List Vma) (mm : Mm) :
    heapStarts (printMemLoop p areas mm) = heapStarts mm := by
  induction areas generalizing mm with
  | nil => rfl
  | cons vma rest ih =>
      simp only [printMemLoop]
      split
      · rw [ih, setPage_heapStarts]
      · exact ih mm

private theorem printMemLoop_noncached_iff (p : Int) (areas : List Vma) (mm : Mm) (address : Nat) :
    ((printMemLoop p areas mm).pte address).cacheable = false ↔
      (mm.pte address).cacheable = false ∨
        ∃ vma ∈ areas, heapTest mm vma = true ∧ pageAddr vma.vmStart p = address := by
  induction areas generalizing mm with
  | nil => simp only [printMemLoop, List.not_mem_nil, false_and, exists_false, or_false]
  | cons vma rest ih =>
      have sameTest := setPage_heapTest p mm vma
      simp only [printMemLoop, List.mem_cons, exists_eq_or_imp]
      split
      · rename_i passes
        simp only [ih, sameTest, setPage_noncached_iff, passes, true_and, or_assoc]
      · rename_i fails
        simp only [ih, fails, Bool.false_eq_true, false_and, false_or]

private theorem printMem_heapStarts (p : Int) (mm : Mm) : heapStarts (printMem p mm) = heapStarts mm :=
  printMemLoop_heapStarts p mm.mmap mm

private theorem printMem_noncached_iff (p : Int) (mm : Mm) (address : Nat) :
    ((printMem p mm).pte address).cacheable = false ↔
      (mm.pte address).cacheable = false ∨
        ∃ start ∈ heapStarts mm, pageAddr start p = address := by
  rw [printMem, printMemLoop_noncached_iff]
  simp only [mem_heapStarts]
  constructor
  · rintro (before | ⟨vma, member, passes, hit⟩)
    · exact Or.inl before
    · exact Or.inr ⟨vma.vmStart, ⟨vma, member, passes, rfl⟩, hit⟩
  · rintro (before | ⟨start, ⟨vma, member, passes, rfl⟩, hit⟩)
    · exact Or.inl before
    · exact Or.inr ⟨vma, member, passes, hit⟩

/-- After a sequence of writes the noncacheable pages are those that were so
before and those any of the writes addressed. -/
theorem foldl_printMem_noncached_iff (pages : List Int) (mm : Mm) (address : Nat) :
    ((pages.foldl (fun state p => printMem p state) mm).pte address).cacheable = false ↔
      (mm.pte address).cacheable = false ∨
        ∃ p ∈ pages, ∃ start ∈ heapStarts mm, pageAddr start p = address := by
  induction pages generalizing mm with
  | nil => simp only [List.foldl_nil, List.not_mem_nil, false_and, exists_false, or_false]
  | cons p rest ih =>
      simp only [List.foldl_cons, ih, printMem_heapStarts, printMem_noncached_iff, List.mem_cons,
        exists_eq_or_imp, or_assoc]

theorem memprofileProcWrite_target (p : Int) (before after : TaskList) (ret : Int)
    (wrote : memprofileProcWrite true p before = some (ret, after)) (target : Task) (mm : Mm)
    (member : target ∈ before.tasks) (named : target.comm = "hello")
    (atTarget : target.mm = some mm) :
    { target with mm := some (printMem p mm) } ∈ after.tasks := by
  simp only [memprofileProcWrite, Bool.true_eq_false, if_false] at wrote
  obtain ⟨list, visited, same⟩ := Option.map_eq_some_iff.mp wrote
  cases same
  obtain ⟨left, atVisit, present⟩ :=
    visitTasks_member _ _ _ (forEachProcess_tasks _ before after visited) target member
  simp only [visitTask, named, if_true, atTarget, Option.some.injEq] at atVisit
  subst atVisit
  exact present

private theorem writeAll_target (pages : List Int) (before after : TaskList)
    (wrote : writeAll pages before = some after) (target : Task) (mm : Mm)
    (member : target ∈ before.tasks) (named : target.comm = "hello")
    (atTarget : target.mm = some mm) :
    { target with mm := some (pages.foldl (fun state p => printMem p state) mm) } ∈ after.tasks := by
  induction pages generalizing before target mm with
  | nil =>
      cases wrote
      have same : { target with mm := some mm } = target := by rw [← atTarget]
      rw [List.foldl_nil, same]
      exact member
  | cons p rest ih =>
      simp only [writeAll] at wrote
      split at wrote
      · cases wrote
      · rename_i ret middle written
        have next := memprofileProcWrite_target p before middle ret written target mm member named
          atTarget
        exact ih middle wrote { target with mm := some (printMem p mm) } (printMem p mm) next named rfl

/-- After a sequence of writes to an all-cacheable heap the last page written is
the only noncacheable one exactly when every write named that page and no other
area that passes the heap test puts it inside the heap. -/
theorem writeAll_onePage_iff (pages : List Int) (last : Int) (before after : TaskList)
    (wrote : writeAll pages before = some after) (target : Task) (mm : Mm) (heap : Vma)
    (member : target ∈ before.tasks) (named : target.comm = "hello")
    (atTarget : target.mm = some mm) (mapped : heap ∈ mm.mmap) (passes : heapTest mm heap = true)
    (cacheable : ∀ address ∈ heap.pageAddrs, (mm.pte address).cacheable = true)
    (inRange : ∀ p ∈ pages, 1 ≤ p ∧ p ≤ heap.pageCount) (ends : pages.getLast? = some last) :
    ∃ mm', { target with mm := some mm' } ∈ after.tasks ∧
      ((∀ address ∈ heap.pageAddrs,
          (mm'.pte address).cacheable = false ↔ address = pageAddr heap.vmStart last) ↔
        (∀ p ∈ pages, p = last) ∧
          ∀ vma ∈ mm.mmap, heapTest mm vma = true → vma ≠ heap →
            pageAddr vma.vmStart last ∉ heap.pageAddrs) := by
  have lastMember : last ∈ pages := List.mem_of_getLast? ends
  have noncached (address : Nat) (inside : address ∈ heap.pageAddrs) :
      ((pages.foldl (fun state p => printMem p state) mm).pte address).cacheable = false ↔
        ∃ p ∈ pages, ∃ start ∈ heapStarts mm, pageAddr start p = address := by
    rw [foldl_printMem_noncached_iff, cacheable address inside]
    exact or_iff_right (by decide)
  have heapStart : heap.vmStart ∈ heapStarts mm :=
    (mem_heapStarts mm heap.vmStart).mpr ⟨heap, mapped, passes, rfl⟩
  refine ⟨_, writeAll_target pages before after wrote target mm member named atTarget, ?_⟩
  constructor
  · intro only
    constructor
    · intro p written
      have range := inRange p written
      have lastRange := inRange last lastMember
      have inside := pageAddr_mem heap p range.1 range.2
      have hit := (noncached _ inside).mpr ⟨p, written, heap.vmStart, heapStart, rfl⟩
      exact pageAddr_injective heap p last range.1 range.2 lastRange.1 lastRange.2
        ((only _ inside).mp hit)
    · intro vma areaMember areaPasses different inside
      have areaStart := (mem_heapStarts mm vma.vmStart).mpr ⟨vma, areaMember, areaPasses, rfl⟩
      have hit := (noncached _ inside).mpr ⟨last, lastMember, vma.vmStart, areaStart, rfl⟩
      have sameStart := pageAddr_start_injective vma heap last ((only _ inside).mp hit)
      have separated := mm.areas_separated vma heap areaMember mapped different
      have areaNonempty := vma.nonempty
      have heapNonempty := heap.nonempty
      omega
  · rintro ⟨samePage, elsewhere⟩ address inside
    rw [noncached address inside]
    constructor
    · rintro ⟨p, written, start, startMember, rfl⟩
      obtain ⟨vma, areaMember, areaPasses, rfl⟩ := (mem_heapStarts mm start).mp startMember
      rw [samePage p written] at inside ⊢
      by_cases isHeap : vma = heap
      · rw [isHeap]
      · exact absurd inside (elsewhere vma areaMember areaPasses isHeap)
    · intro isLast
      exact ⟨last, lastMember, heap.vmStart, heapStart, isLast.symm⟩

def sampleHello : Task := { pid := 7, comm := "hello", mm := some sampleMm }

def sampleHellos : TaskList := { tasks := [sampleHello], distinct := List.nodup_singleton _ }

private theorem sampleHeap_inRange : ∀ p ∈ [(2 : Int), 2], 1 ≤ p ∧ p ≤ sampleHeap.pageCount := by
  decide

theorem writeAll_onePage_iff_sample :
    ∃ (after : TaskList) (mm' : Mm),
      writeAll [2, 2] sampleHellos = some after ∧
      { sampleHello with mm := some mm' } ∈ after.tasks ∧
      ∀ address ∈ sampleHeap.pageAddrs,
        (mm'.pte address).cacheable = false ↔ address = pageAddr sampleHeap.vmStart 2 := by
  obtain ⟨after, wrote⟩ : ∃ after, writeAll [2, 2] sampleHellos = some after := ⟨_, rfl⟩
  obtain ⟨mm', present, only⟩ :=
    writeAll_onePage_iff [2, 2] 2 sampleHellos after wrote sampleHello sampleMm sampleHeap
      List.mem_cons_self rfl rfl List.mem_cons_self rfl (fun _address _inside => rfl)
      sampleHeap_inRange rfl
  refine ⟨after, mm', wrote, present, only.mpr ⟨by decide, ?_⟩⟩
  intro vma areaMember _passes different
  exact absurd (List.mem_singleton.mp areaMember) different

theorem writeAll_leaves_earlier_page :
    ∃ (after : TaskList) (mm' : Mm),
      writeAll [1, 2] sampleHellos = some after ∧
      { sampleHello with mm := some mm' } ∈ after.tasks ∧
      (∀ address ∈ sampleHeap.pageAddrs, (sampleMm.pte address).cacheable = true) ∧
      ¬ ∀ address ∈ sampleHeap.pageAddrs,
        (mm'.pte address).cacheable = false ↔ address = pageAddr sampleHeap.vmStart 2 := by
  obtain ⟨after, wrote⟩ : ∃ after, writeAll [1, 2] sampleHellos = some after := ⟨_, rfl⟩
  have present := writeAll_target [1, 2] sampleHellos after wrote sampleHello sampleMm
    List.mem_cons_self rfl rfl
  refine ⟨after, _, wrote, present, fun _address _inside => rfl, ?_⟩
  intro only
  have inside : 0x10000 ∈ sampleHeap.pageAddrs := by decide
  have hit := (foldl_printMem_noncached_iff [1, 2] sampleMm 0x10000).mpr
    (Or.inr ⟨1, by decide, 0x10000, by decide, by decide⟩)
  exact absurd ((only 0x10000 inside).mp hit) (by decide)

end BlackboxProfiling.AllCacheableExceptOne
