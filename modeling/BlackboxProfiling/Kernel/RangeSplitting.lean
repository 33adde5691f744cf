import BlackboxProfiling.Kernel.CacheLines

/-!
`all_noncacheable_except_one.c`: a write leaves one page out by walking the range
before it and the range behind it. The kernel stops on an empty range. What the
callback did with a page is commented out, so only the pages handed to it are left.
-/

namespace BlackboxProfiling

open AddressWalk

def ulong (value : Int) : Nat := (value % 0x100000000).toNat

namespace AllNoncacheableExceptOne

def efault : Int := 14

structure RangeCall where
  addr : Nat
  size : Nat
  deriving DecidableEq, Repr

def printMem (_address : Nat) (state : PageTable × Pgprot) : Int × (PageTable × Pgprot) := (0, state)

def rangeCalls (p : Int) (vma : Vma) : List RangeCall :=
  if p = 1 then
    [⟨ulong (vma.vmStart + pageSize), ulong (vma.vmEnd - (vma.vmStart + p * pageSize))⟩]
  else if p = 45 then [⟨vma.vmStart, ulong ((p - 1) * pageSize)⟩]
  else
    [⟨vma.vmStart, ulong ((p - 1) * pageSize)⟩,
      ⟨ulong (vma.vmStart + p * pageSize), ulong (vma.vmEnd - (vma.vmStart + p * pageSize))⟩]

/-- The pages one call hands to the callback; none when the kernel stops on the range. -/
def RangeCall.handed (state : PageTable × Pgprot) (call : RangeCall) : Option (List Nat) :=
  if ulong (call.addr + call.size) ≤ call.addr then none
  else some (applyToPageRangeLog call.addr call.size (fun address _state => [address]) printMem
    state)

def handedPages (state : PageTable × Pgprot) : List RangeCall → Option (List Nat)
  | [] => some []
  | call :: rest =>
      match call.handed state, handedPages state rest with
      | some pages, some later => some (pages ++ later)
      | _, _ => none

def changeAreas (p : Int) (mm : Mm) : List Vma → Option (List Nat)
  | [] => some []
  | vma :: rest =>
      if heapTest mm vma then
        match handedPages (mm.pte, vma.vmPageProt) (rangeCalls p vma), changeAreas p mm rest with
        | some pages, some later => some (pages ++ later)
        | _, _ => none
      else changeAreas p mm rest

/-- A debug line reads the protection of the first area before the loop. -/
def changeMm (p : Int) (mm : Mm) : Option (List Nat) :=
  if mm.mmap = [] then none else changeAreas p mm mm.mmap

def visitTask (p : Int) (task : Task) : Option (Option Mm) :=
  if task.comm = "hello" then
    match task.mm with
    | none => none
    | some mm => (changeMm p mm).map (fun _handed => some mm)
  else some task.mm

def memprofileProcWrite (copied : Bool) (p : Int) (processes : TaskList) :
    Option (Int × TaskList) :=
  if copied = false then some (-efault, processes)
  else (forEachProcess (visitTask p) processes).map (fun after => (0, after))

private theorem printMem_log (addresses : List Nat) (state : PageTable × Pgprot) :
    walkLog (fun address _state => [address]) printMem addresses state = addresses := by
  induction addresses with
  | nil => rfl
  | cons address rest ih => exact congrArg (List.cons address) ih

private theorem handed_some (state : PageTable × Pgprot) (call : RangeCall) (positive : 0 < call.size)
    (below : call.addr + call.size < 0x100000000) :
    call.handed state = some (pageAddrs call.addr call.size) := by
  have stop : ulong (call.addr + call.size) = call.addr + call.size := by
    simp only [ulong]
    omega
  rw [RangeCall.handed, stop, if_neg (by omega), applyToPageRangeLog_eq, printMem_log]

private theorem handed_empty (state : PageTable × Pgprot) (call : RangeCall) (empty : call.size = 0)
    (below : call.addr < 0x100000000) : call.handed state = none := by
  have stop : ulong (call.addr + call.size) = call.addr := by
    simp only [ulong]
    omega
  rw [RangeCall.handed, stop, if_pos (Nat.le_refl _)]

private theorem filter_ne_around (before after : List Nat) (skipped : Nat)
    (distinct : (before ++ skipped :: after).Nodup) :
    (before ++ skipped :: after).filter (fun address => !decide (address = skipped)) =
      before ++ after := by
  obtain ⟨_before, behind, apart⟩ := List.nodup_append.mp distinct
  have notBefore : ∀ address ∈ before, (!decide (address = skipped)) = true := by
    intro address member
    have different := apart address member skipped List.mem_cons_self
    simp only [different, decide_false, Bool.not_false]
  have notAfter : ∀ address ∈ after, (!decide (address = skipped)) = true := by
    intro address member
    have different : address ≠ skipped := by
      rintro rfl
      exact (List.nodup_cons.mp behind).1 member
    simp only [different, decide_false, Bool.not_false]
  rw [List.filter_append, List.filter_cons_of_neg (by simp), List.filter_eq_self.mpr notBefore,
    List.filter_eq_self.mpr notAfter]

theorem pageAddrs_around (heap : Vma) (k : Nat) (below : k < heap.pageCount) :
    heap.pageAddrs.filter (fun address => !decide (address = pageAddr heap.vmStart (k + 1))) =
      List.range' heap.vmStart k pageSize ++
        List.range' (heap.vmStart + pageSize * (k + 1)) (heap.pageCount - (k + 1)) pageSize := by
  have skipped : pageAddr heap.vmStart (k + 1) = heap.vmStart + pageSize * k := by
    have address := pageAddr_inRange heap (k + 1) (by omega) (by omega)
    simp only [pageSize] at *
    omega
  have rest : heap.pageCount = k + ((heap.pageCount - (k + 1)) + 1) := by omega
  have split : heap.pageAddrs = List.range' heap.vmStart k pageSize ++
      (heap.vmStart + pageSize * k) ::
        List.range' (heap.vmStart + pageSize * (k + 1)) (heap.pageCount - (k + 1)) pageSize := by
    have all : heap.pageAddrs = List.range' heap.vmStart heap.pageCount pageSize := rfl
    rw [all, rest, ← List.range'_append, List.range'_succ, Nat.mul_succ, Nat.add_assoc]
    congr 3
    omega
  have distinct : heap.pageAddrs.Nodup := pageAddrs_nodup _ _
  rw [split] at distinct
  rw [split, skipped]
  exact filter_ne_around _ _ _ distinct

def switchedPages (calls : List Call) : List Nat :=
  calls.filterMap (fun call =>
    match call with
    | .setPteExt address _pte => some address
    | _ => none)

private theorem sdVbs_switchedPages (p : Int) (kmap : Nat → Nat → Ulong) (heap : Vma)
    (table : PageTable) :
    switchedPages (PteWriter.calls kmap heap table (.allNoncacheableExceptOneSdVbs p)) =
      heap.pageAddrs.filter (fun address => !decide (address = pageAddr heap.vmStart p)) := by
  have log := applyToPageRangeLog_modifyPage
    (fun address => decide (address = pageAddr heap.vmStart p)) heap.vmStart
    (heap.vmEnd - heap.vmStart)
    (AllNoncacheableExceptOneSdVbs.printMemCalls (pageAddr heap.vmStart p))
    (fun address pte prot => if decide (address = pageAddr heap.vmStart p) then [] else
      PageSwitch.calls ⟨address, BitVec.ofNat 32 address, pfnPte pte.pfn prot⟩)
    (fun _address _table _prot => rfl) table heap.vmPageProt
  have same : PteWriter.calls kmap heap table (.allNoncacheableExceptOneSdVbs p) = _ := log
  rw [same, Vma.pageAddrs]
  generalize pageAddrs heap.vmStart (heap.vmEnd - heap.vmStart) = addresses
  induction addresses with
  | nil => rfl
  | cons address rest ih =>
      rw [List.flatMap_cons, switchedPages, List.filterMap_append]
      change _ ++ switchedPages _ = _
      rw [ih]
      by_cases here : address = pageAddr heap.vmStart p
      · simp [here]
      · simp [here, PageSwitch.calls]

/-- The ranges are nonempty, lie in the heap and hand over every page but the `p`-th
once: the pages for which the module for the benchmarks sets entries. -/
structure SplitsAround (p : Int) (heap : Vma) (kmap : Nat → Nat → Ulong) (table : PageTable) :
    Prop where
  positive : ∀ call ∈ rangeCalls p heap, 0 < call.size
  inside : ∀ call ∈ rangeCalls p heap,
    heap.vmStart ≤ call.addr ∧ call.addr + call.size ≤ heap.vmEnd
  handed : ∃ pages, handedPages (table, heap.vmPageProt) (rangeCalls p heap) = some pages ∧
    pages.Perm (heap.pageAddrs.filter (fun address => !decide (address = pageAddr heap.vmStart p))) ∧
    pages.Perm (switchedPages (PteWriter.calls kmap heap table (.allNoncacheableExceptOneSdVbs p)))

theorem rangeCalls_eq (heap : Vma) (k : Nat) (below : k < heap.pageCount) :
    rangeCalls (k + 1) heap =
      if k = 0 then [⟨heap.vmStart + pageSize, pageSize * (heap.pageCount - 1)⟩]
      else if k = 44 then [⟨heap.vmStart, pageSize * k⟩]
      else
        [⟨heap.vmStart, pageSize * k⟩,
          ⟨heap.vmStart + pageSize * (k + 1), pageSize * (heap.pageCount - (k + 1))⟩] := by
  have size := heap.size_eq
  have bounded := heap.bounded
  have first : ulong (heap.vmStart + pageSize) = heap.vmStart + pageSize := by
    simp only [ulong, pageSize] at *
    omega
  have before : ulong ((k + 1 - 1) * pageSize) = pageSize * k := by
    simp only [ulong, pageSize] at *
    omega
  have behind : ulong (heap.vmStart + ((k : Int) + 1) * pageSize) =
      heap.vmStart + pageSize * (k + 1) := by
    simp only [ulong, pageSize] at *
    omega
  have rest : ulong (heap.vmEnd - (heap.vmStart + ((k : Int) + 1) * pageSize)) =
      pageSize * (heap.pageCount - (k + 1)) := by
    simp only [ulong, pageSize] at *
    omega
  rw [rangeCalls, first, before, behind, rest]
  by_cases isFirst : k = 0
  · subst isFirst
    rfl
  · rw [if_neg (by omega), if_neg isFirst]
    by_cases special : k = 44
    · rw [if_pos (by omega), if_pos special]
    · rw [if_neg (by omega), if_neg special]

private theorem handedPages_some (state : PageTable × Pgprot) (calls : List RangeCall)
    (fits : ∀ call ∈ calls, 0 < call.size ∧ call.addr + call.size < 0x100000000) :
    handedPages state calls =
      some (calls.flatMap (fun call => pageAddrs call.addr call.size)) := by
  induction calls with
  | nil => rfl
  | cons call rest ih =>
      obtain ⟨positive, below⟩ := fits call List.mem_cons_self
      have later := ih (fun other member => fits other (List.mem_cons_of_mem call member))
      simp only [handedPages, handed_some state call positive below, later, List.flatMap_cons]

private theorem pageAddrs_pages (start pages : Nat) :
    pageAddrs start (pageSize * pages) = List.range' start pages pageSize := by
  rw [pageAddrs, Nat.mul_div_cancel_left pages (by decide)]

theorem pageAddrs_around_length (heap : Vma) (k : Nat) (below : k < heap.pageCount) :
    (heap.pageAddrs.filter
      (fun address => !decide (address = pageAddr heap.vmStart (k + 1)))).length =
      heap.pageCount - 1 := by
  rw [pageAddrs_around heap k below, List.length_append, List.length_range', List.length_range']
  omega

theorem splitsAround_of_flatMap (heap : Vma) (k : Nat) (below : k < heap.pageCount)
    (kmap : Nat → Nat → Ulong) (table : PageTable)
    (fits : ∀ call ∈ rangeCalls (k + 1) heap, 0 < call.size ∧ heap.vmStart ≤ call.addr ∧
      call.addr + call.size ≤ heap.vmEnd)
    (pages : (rangeCalls (k + 1) heap).flatMap (fun call => pageAddrs call.addr call.size) =
      List.range' heap.vmStart k pageSize ++
        List.range' (heap.vmStart + pageSize * (k + 1)) (heap.pageCount - (k + 1)) pageSize) :
    SplitsAround (k + 1) heap kmap table := by
  have bounded := heap.bounded
  have handed := handedPages_some (table, heap.vmPageProt) (rangeCalls (k + 1) heap)
    (fun call member => ⟨(fits call member).1, Nat.lt_of_le_of_lt (fits call member).2.2 bounded⟩)
  rw [pages, ← pageAddrs_around heap k below] at handed
  refine ⟨fun call member => (fits call member).1, fun call member => (fits call member).2,
    _, handed, List.Perm.refl _, ?_⟩
  rw [sdVbs_switchedPages]

private theorem rangeCalls_fit (heap : Vma) (k : Nat) (below : k < heap.pageCount)
    (two : 2 ≤ heap.pageCount) (ordinary : k ≠ 44 → k + 1 < heap.pageCount) (call : RangeCall)
    (member : call ∈ rangeCalls (k + 1) heap) :
    0 < call.size ∧ heap.vmStart ≤ call.addr ∧ call.addr + call.size ≤ heap.vmEnd := by
  have size := heap.size_eq
  rw [rangeCalls_eq heap k below] at member
  simp only [pageSize] at *
  split at member
  · rw [List.mem_singleton.mp member]
    dsimp only
    omega
  · split at member
    · rw [List.mem_singleton.mp member]
      dsimp only
      omega
    · rcases List.mem_cons.mp member with rfl | last
      · dsimp only
        omega
      · rw [List.mem_singleton.mp last]
        dsimp only
        omega

private theorem rangeCalls_pages (heap : Vma) (k : Nat) (below : k < heap.pageCount)
    (special : k = 44 → heap.pageCount = 45) :
    (rangeCalls (k + 1) heap).flatMap (fun call => pageAddrs call.addr call.size) =
      List.range' heap.vmStart k pageSize ++
        List.range' (heap.vmStart + pageSize * (k + 1)) (heap.pageCount - (k + 1)) pageSize := by
  rw [rangeCalls_eq heap k below]
  by_cases first : k = 0
  · rw [if_pos first, List.flatMap_singleton, pageAddrs_pages, first]
    simp
  · rw [if_neg first]
    by_cases fixed : k = 44
    · have none : heap.pageCount - (k + 1) = 0 := by
        have last := special fixed
        omega
      rw [if_pos fixed, List.flatMap_singleton, pageAddrs_pages, none]
      simp
    · rw [if_neg fixed, List.flatMap_cons, List.flatMap_singleton, pageAddrs_pages,
        pageAddrs_pages]

/-- For the 45th page only the pages before it are handed over. -/
theorem SplitsAround.fixed_last (heap : Vma) (k : Nat) (below : k < heap.pageCount)
    (fixed : k = 44) (kmap : Nat → Nat → Ulong) (table : PageTable)
    (splits : SplitsAround (k + 1) heap kmap table) : heap.pageCount = 45 := by
  have calls := rangeCalls_eq heap k below
  rw [if_neg (by omega), if_pos fixed] at calls
  obtain ⟨pages, handed, cover, _same⟩ := splits.handed
  have fits : ∀ call ∈ rangeCalls (k + 1) heap,
      0 < call.size ∧ call.addr + call.size < 0x100000000 := by
    intro call member
    have bounded := heap.bounded
    have inside := splits.inside call member
    exact ⟨splits.positive call member, by omega⟩
  rw [handedPages_some _ _ fits, calls] at handed
  have length := cover.length_eq
  rw [pageAddrs_around_length heap k below, ← Option.some.inj handed, List.flatMap_singleton,
    pageAddrs_pages, List.length_range'] at length
  omega

/-- The ranges split around page `p` exactly when the one page number the source
treats by itself is the last one and no other last page is named. -/
theorem splitsAround_iff (p : Int) (heap : Vma) (kmap : Nat → Nat → Ulong) (table : PageTable)
    (two : 2 ≤ heap.pageCount) (positive : 1 ≤ p) (inRange : p ≤ heap.pageCount) :
    SplitsAround p heap kmap table ↔
      (p = 45 → heap.pageCount = 45) ∧ (p ≠ 45 → p < heap.pageCount) := by
  obtain ⟨k, rfl⟩ : ∃ k : Nat, p = k + 1 := ⟨(p - 1).toNat, by omega⟩
  have below : k < heap.pageCount := by omega
  constructor
  · intro splits
    constructor
    · intro special
      exact splits.fixed_last heap k below (by omega) kmap table
    · -- the range behind the last page is empty
      intro ordinary
      by_contra last
      have calls := rangeCalls_eq heap k below
      rw [if_neg (by omega), if_neg (by omega)] at calls
      have nonempty := splits.positive ⟨heap.vmStart + pageSize * (k + 1),
        pageSize * (heap.pageCount - (k + 1))⟩ (by rw [calls]; simp)
      have empty : heap.pageCount - (k + 1) = 0 := by omega
      rw [empty] at nonempty
      exact Nat.lt_irrefl 0 nonempty
  · rintro ⟨special, ordinary⟩
    apply splitsAround_of_flatMap heap k below
    · exact rangeCalls_fit heap k below two (by omega)
    · exact rangeCalls_pages heap k below (by omega)

private theorem handedPages_none (state : PageTable × Pgprot) (calls : List RangeCall)
    (call : RangeCall)
    (member : call ∈ calls) (stops : call.handed state = none) : handedPages state calls = none := by
  induction calls with
  | nil => cases member
  | cons head rest ih =>
      rcases List.mem_cons.mp member with rfl | later
      · simp only [handedPages, stops]
      · cases first : head.handed state <;> simp only [handedPages, first, ih later]

private theorem changeAreas_none (p : Int) (mm : Mm) (heap : Vma) (passes : heapTest mm heap = true)
    (stops : handedPages (mm.pte, heap.vmPageProt) (rangeCalls p heap) = none)
    (areas : List Vma) (member : heap ∈ areas) : changeAreas p mm areas = none := by
  induction areas with
  | nil => cases member
  | cons vma rest ih =>
      rcases List.mem_cons.mp member with rfl | later
      · simp only [changeAreas, passes, if_true, stops]
      · cases first : handedPages (mm.pte, vma.vmPageProt) (rangeCalls p vma) <;>
          simp only [changeAreas, first, ih later, ite_self]

/-- A write for the last page of a heap stops the kernel, for every number of pages
but the one the source knows. -/
theorem changeMm_lastPage (mm : Mm) (heap : Vma) (mapped : heap ∈ mm.mmap)
    (passes : heapTest mm heap = true) (two : 2 ≤ heap.pageCount)
    (ordinary : heap.pageCount ≠ 45) : changeMm heap.pageCount mm = none := by
  have size := heap.size_eq
  have bounded := heap.bounded
  obtain ⟨k, pages⟩ : ∃ k, heap.pageCount = k + 1 := ⟨heap.pageCount - 1, by omega⟩
  have calls := rangeCalls_eq heap k (by omega)
  rw [if_neg (by omega), if_neg (by omega)] at calls
  have atEnd : (⟨heap.vmStart + pageSize * (k + 1), 0⟩ : RangeCall) ∈
      rangeCalls heap.pageCount heap := by
    have none : heap.pageCount - (k + 1) = 0 := by omega
    rw [none] at calls
    rw [pages, Nat.cast_succ, calls]
    simp
  have stops := handed_empty (mm.pte, heap.vmPageProt)
    ⟨heap.vmStart + pageSize * (k + 1), 0⟩ rfl (by rw [← pages]; dsimp only; omega)
  rw [changeMm, if_neg (List.ne_nil_of_mem mapped)]
  exact changeAreas_none _ mm heap passes (handedPages_none _ _ _ atEnd stops) mm.mmap mapped

theorem splitsAround_iff_sample :
    SplitsAround 2 sampleHeap (fun address _pfn => BitVec.ofNat 32 address) sampleMm.pte :=
  (splitsAround_iff 2 sampleHeap _ sampleMm.pte (by decide) (by decide) (by decide)).mpr
    ⟨fun impossible => absurd impossible (by decide), fun _ordinary => by decide⟩

/-- On the last page of a three-page heap the kernel stops. -/
theorem lastPage_stops :
    (1 ≤ (3 : Int) ∧ (3 : Int) ≤ sampleHeap.pageCount ∧ 2 ≤ sampleHeap.pageCount) ∧
      rangeCalls 3 sampleHeap = [⟨0x10000, 0x2000⟩, ⟨0x13000, 0⟩] ∧
      changeMm 3 sampleMm = none ∧
      ¬ SplitsAround 3 sampleHeap (fun address _pfn => BitVec.ofNat 32 address) sampleMm.pte := by
  have range : (1 ≤ (3 : Int) ∧ (3 : Int) ≤ sampleHeap.pageCount) ∧ 2 ≤ sampleHeap.pageCount := by
    decide
  have calls : rangeCalls 3 sampleHeap = [⟨0x10000, 0x2000⟩, ⟨0x13000, 0⟩] :=
    rangeCalls_eq sampleHeap 2 (by decide)
  refine ⟨⟨range.1.1, range.1.2, range.2⟩, calls, ?_, ?_⟩
  · exact changeMm_lastPage sampleMm sampleHeap List.mem_cons_self rfl range.2 (by decide)
  · intro splits
    exact absurd (splits.positive ⟨0x13000, 0⟩ (by rw [calls]; decide)) (by decide)

end AllNoncacheableExceptOne

end BlackboxProfiling
