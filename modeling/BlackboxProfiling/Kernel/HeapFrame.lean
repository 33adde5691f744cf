import BlackboxProfiling.Kernel.SdVbs

/-!
What a bad page number touches in `all_cacheable_except_one.c` and in its variant for
the vision benchmarks. Nothing compares the number with the size of an area: the
address wraps around the 32-bit address space, and the entry it meets is read and
set, whatever area it belongs to. Nor is a level of the table tested: where the second
one is absent, the word in the place of the entry is read and set.
-/

namespace BlackboxProfiling

open AllCacheableExceptOne (setPage printMemLoop)

/-- The copy of an entry for the hardware lies 512 entries behind it. A stray access is one
to a word in the place of an entry without a table. -/
inductive PteAccess where
  | read (address : Nat)
  | readHardware (address : Nat)
  | set (address : Nat)
  | stray (address : Nat)
  deriving DecidableEq, Repr

def PteAccess.page : PteAccess → Option Nat
  | .read address | .readHardware address | .set address => some address
  | .stray _address => none

def walkTo (mm : Mm) (address : Nat) (accesses : List PteAccess) : List PteAccess :=
  if mm.hasTable address then accesses else accesses.map (fun _access => .stray address)

/-- The accesses for one area, those of the debug lines included. -/
def AllCacheableExceptOne.setPageAccesses (p : Int) (mm : Mm) (vma : Vma) : List PteAccess :=
  let address := pageAddr vma.vmStart p
  walkTo mm address
    [.read address, .readHardware address, .read address, .set address, .read address,
      .readHardware address]

def AllCacheableExceptOneSdVbs.setPageAccesses (p : Int) (mm : Mm) (vma : Vma) : List PteAccess :=
  let address := pageAddr vma.vmStart p
  walkTo mm address [.read address, .read address, .set address]

inductive OnePageModule where
  | allCacheableExceptOne
  | allCacheableExceptOneSdVbs
  deriving DecidableEq, Repr

def OnePageModule.comm : OnePageModule → String
  | .allCacheableExceptOne => "hello"
  | .allCacheableExceptOneSdVbs => "mser"

def OnePageModule.setPageAccesses (p : Int) (mm : Mm) (vma : Vma) :
    OnePageModule → List PteAccess
  | .allCacheableExceptOne => AllCacheableExceptOne.setPageAccesses p mm vma
  | .allCacheableExceptOneSdVbs => AllCacheableExceptOneSdVbs.setPageAccesses p mm vma

def accessesLoop (onePage : OnePageModule) (p : Int) : List Vma → Mm → List PteAccess
  | [], _mm => []
  | vma :: rest, mm =>
      if heapTest mm vma then
        onePage.setPageAccesses p mm vma ++ accessesLoop onePage p rest (setPage p mm vma)
      else accessesLoop onePage p rest mm

/-- The numbers with which a write leaves all processes alone. -/
def OnePageModule.Baseline (p : Int) : OnePageModule → Prop
  | .allCacheableExceptOne => False
  | .allCacheableExceptOneSdVbs => p = 0

instance (onePage : OnePageModule) (p : Int) : Decidable (onePage.Baseline p) :=
  match onePage with
  | .allCacheableExceptOne => inferInstanceAs (Decidable False)
  | .allCacheableExceptOneSdVbs => inferInstanceAs (Decidable (p = 0))

def OnePageModule.accesses (onePage : OnePageModule) (p : Int) (mm : Mm) : List PteAccess :=
  if onePage.Baseline p then []
  else accessesLoop onePage p mm.mmap mm

def OnePageModule.visit (onePage : OnePageModule) (p : Int) (mm : Mm) : Mm :=
  if onePage.Baseline p then mm else AllCacheableExceptOne.printMem p mm

def OnePageModule.memprofileProcWrite (copied : Bool) (p : Int) (processes : TaskList) :
    OnePageModule → Option (Int × TaskList)
  | .allCacheableExceptOne => AllCacheableExceptOne.memprofileProcWrite copied p processes
  | .allCacheableExceptOneSdVbs =>
      AllCacheableExceptOneSdVbs.memprofileProcWrite copied p processes

theorem OnePageModule.memprofileProcWrite_visits (onePage : OnePageModule) (p : Int)
    (before after : TaskList) (ret : Int)
    (wrote : onePage.memprofileProcWrite true p before = some (ret, after)) (target : Task)
    (mm : Mm) (member : target ∈ before.tasks) (named : target.comm = onePage.comm)
    (atTarget : target.mm = some mm) :
    { target with mm := some (onePage.visit p mm) } ∈ after.tasks := by
  cases onePage with
  | allCacheableExceptOne =>
      exact AllCacheableExceptOne.memprofileProcWrite_target p before after ret wrote target mm member
        named atTarget
  | allCacheableExceptOneSdVbs =>
      simp only [memprofileProcWrite, AllCacheableExceptOneSdVbs.memprofileProcWrite,
        Bool.true_eq_false, if_false] at wrote
      by_cases baseline : p = 0
      · rw [if_pos baseline] at wrote
        cases wrote
        have same : { target with mm := some mm } = target := by rw [← atTarget]
        have isBaseline : Baseline p .allCacheableExceptOneSdVbs := baseline
        rw [visit, if_pos isBaseline, same]
        exact member
      · rw [if_neg baseline] at wrote
        obtain ⟨list, visited, same⟩ := Option.map_eq_some_iff.mp wrote
        cases same
        obtain ⟨left, atVisit, present⟩ :=
          visitTasks_member _ _ _ (forEachProcess_tasks _ before after visited) target member
        have here : target.comm = "mser" := named
        simp only [visitMser, here, if_true, atTarget, Option.map_some, Option.some.injEq] at atVisit
        subst atVisit
        have notBaseline : ¬ Baseline p .allCacheableExceptOneSdVbs := baseline
        rw [visit, if_neg notBaseline]
        exact present

theorem pageAddr_apart (p : Int) (left right : Vma) (before : left.vmEnd ≤ right.vmStart) :
    pageAddr right.vmStart p ≠ pageAddr left.vmStart p := by
  intro same
  have sameStart := pageAddr_start_injective right left p same
  have nonempty := left.nonempty
  omega

private theorem setPage_hasTable (p : Int) (mm : Mm) (vma : Vma) (address : Nat)
    (elsewhere : address ≠ pageAddr vma.vmStart p) :
    (setPage p mm vma).hasTable address = mm.hasTable address := by
  have kept := AllCacheableExceptOne.setPage_kept p mm vma address (Or.inl elsewhere)
  have tables : (setPage p mm vma).tables = mm.tables := by
    obtain ⟨table, stored⟩ := AllCacheableExceptOne.setPage_eq p mm vma
    rw [stored]
    rfl
  simp only [Mm.hasTable, kept, tables]

private theorem OnePageModule.setPageAccesses_kept (onePage : OnePageModule) (p : Int) (mm : Mm)
    (vma other : Vma) (apart : pageAddr other.vmStart p ≠ pageAddr vma.vmStart p) :
    onePage.setPageAccesses p (setPage p mm vma) other = onePage.setPageAccesses p mm other := by
  cases onePage <;>
    simp only [setPageAccesses, AllCacheableExceptOne.setPageAccesses,
      AllCacheableExceptOneSdVbs.setPageAccesses, walkTo, setPage_hasTable p mm vma _ apart]

private theorem mem_accessesLoop (onePage : OnePageModule) (p : Int) (areas : List Vma)
    (sorted : areas.Pairwise (fun left right => left.vmEnd ≤ right.vmStart)) (mm : Mm)
    (access : PteAccess) :
    access ∈ accessesLoop onePage p areas mm ↔
      ∃ vma ∈ areas, heapTest mm vma = true ∧ access ∈ onePage.setPageAccesses p mm vma := by
  induction areas generalizing mm with
  | nil => simp only [accessesLoop, List.not_mem_nil, false_and, exists_false]
  | cons vma rest ih =>
      obtain ⟨before, restSorted⟩ := List.pairwise_cons.mp sorted
      have sameTest := AllCacheableExceptOne.setPage_heapTest p mm vma
      simp only [accessesLoop, List.mem_cons, exists_eq_or_imp]
      split
      · rename_i passes
        simp only [List.mem_append, ih restSorted, sameTest, passes, true_and]
        apply or_congr_right
        apply exists_congr
        intro other
        apply and_congr_right
        intro later
        rw [onePage.setPageAccesses_kept p mm vma other (pageAddr_apart p vma other (before other later))]
      · rename_i fails
        simp only [ih restSorted, fails, Bool.false_eq_true, false_and, false_or]

private theorem mem_walkTo (mm : Mm) (address : Nat) (accesses : List PteAccess)
    (own : ∀ access ∈ accesses, access.page = some address) (access : PteAccess)
    (member : access ∈ walkTo mm address accesses) :
    access.page = if mm.hasTable address then some address else none := by
  unfold walkTo at member
  split at member
  · rename_i tabled
    rw [if_pos tabled]
    exact own access member
  · rename_i missing
    obtain ⟨_access, _member, rfl⟩ := List.mem_map.mp member
    rw [if_neg missing]
    rfl

theorem OnePageModule.mem_setPageAccesses (onePage : OnePageModule) (p : Int) (mm : Mm) (vma : Vma)
    (access : PteAccess) (member : access ∈ onePage.setPageAccesses p mm vma) :
    access.page = if mm.hasTable (pageAddr vma.vmStart p) then some (pageAddr vma.vmStart p)
      else none := by
  cases onePage with
  | allCacheableExceptOne =>
      apply mem_walkTo mm _ _ _ access member
      intro listed isListed
      simp only [List.mem_cons, List.not_mem_nil, or_false] at isListed
      rcases isListed with rfl | rfl | rfl | rfl | rfl | rfl <;> rfl
  | allCacheableExceptOneSdVbs =>
      apply mem_walkTo mm _ _ _ access member
      intro listed isListed
      simp only [List.mem_cons, List.not_mem_nil, or_false] at isListed
      rcases isListed with rfl | rfl | rfl <;> rfl

private theorem OnePageModule.setPageAccesses_nonempty (onePage : OnePageModule) (p : Int) (mm : Mm)
    (vma : Vma) : ∃ access, access ∈ onePage.setPageAccesses p mm vma := by
  apply List.exists_mem_of_ne_nil
  cases onePage <;>
    simp only [setPageAccesses, AllCacheableExceptOne.setPageAccesses,
      AllCacheableExceptOneSdVbs.setPageAccesses, walkTo]
  · split <;> exact List.cons_ne_nil _ _
  · split <;> exact List.cons_ne_nil _ _

private theorem printMemLoop_elsewhere (p : Int) (areas : List Vma) (mm : Mm) (address : Nat)
    (elsewhere : ∀ vma ∈ areas, heapTest mm vma = true → pageAddr vma.vmStart p ≠ address) :
    (printMemLoop p areas mm).pte address = mm.pte address := by
  induction areas generalizing mm with
  | nil => rfl
  | cons vma rest ih =>
      have sameTest := AllCacheableExceptOne.setPage_heapTest p mm vma
      have others : ∀ other ∈ rest, heapTest mm other = true →
          pageAddr other.vmStart p ≠ address := fun other member =>
        elsewhere other (List.mem_cons_of_mem _ member)
      simp only [printMemLoop]
      split
      · rename_i passes
        rw [ih (setPage p mm vma) (fun other member => by rw [sameTest]; exact others other member)]
        exact AllCacheableExceptOne.setPage_kept p mm vma address
          (Or.inl (Ne.symm (elsewhere vma List.mem_cons_self passes)))
      · exact ih mm others

theorem printMemLoop_here (p : Int) (areas : List Vma)
    (sorted : areas.Pairwise (fun left right => left.vmEnd ≤ right.vmStart)) (mm : Mm) (vma : Vma)
    (member : vma ∈ areas) (passes : heapTest mm vma = true)
    (tabled : mm.hasTable (pageAddr vma.vmStart p) = true) :
    (printMemLoop p areas mm).pte (pageAddr vma.vmStart p) =
      pfnPte (ptePfn (mm.pte (pageAddr vma.vmStart p))) (pgprotNoncached vma.vmPageProt) := by
  induction areas generalizing mm with
  | nil => cases member
  | cons head rest ih =>
      obtain ⟨headBefore, restSorted⟩ := List.pairwise_cons.mp sorted
      have apart (other : Vma) (later : other ∈ rest) :=
        pageAddr_apart p head other (headBefore other later)
      rcases List.mem_cons.mp member with rfl | later
      · simp only [printMemLoop, passes, if_true]
        rw [printMemLoop_elsewhere p rest _ _ (fun other present _passes => apart other present)]
        exact AllCacheableExceptOne.setPage_switched p mm vma tabled
      · simp only [printMemLoop]
        split
        · have kept := AllCacheableExceptOne.setPage_kept p mm head (pageAddr vma.vmStart p)
            (Or.inl (apart vma later))
          rw [ih restSorted (setPage p mm head) later, kept]
          · rw [AllCacheableExceptOne.setPage_heapTest]
            exact passes
          · rw [setPage_hasTable p mm head _ (apart vma later)]
            exact tabled
        · exact ih restSorted mm later passes tabled

/-- Where each address met has its entry, the entries stay as they are exactly if each
already held what is set. -/
theorem printMem_pte_eq_iff (p : Int) (mm : Mm)
    (tabled : ∀ vma ∈ mm.mmap, heapTest mm vma = true →
      mm.hasTable (pageAddr vma.vmStart p) = true) :
    (AllCacheableExceptOne.printMem p mm).pte = mm.pte ↔
      ∀ vma ∈ mm.mmap, heapTest mm vma = true →
        (mm.pte (pageAddr vma.vmStart p)).prot = pgprotNoncached vma.vmPageProt := by
  have here (vma : Vma) (member : vma ∈ mm.mmap) (passes : heapTest mm vma = true) :=
    printMemLoop_here p mm.mmap mm.sorted mm vma member passes (tabled vma member passes)
  constructor
  · intro same vma member passes
    have set := here vma member passes
    rw [← AllCacheableExceptOne.printMem, same] at set
    rw [set]
    rfl
  · intro already
    funext address
    by_cases met : ∃ vma ∈ mm.mmap, heapTest mm vma = true ∧ pageAddr vma.vmStart p = address
    · obtain ⟨vma, member, passes, same⟩ := met
      subst same
      rw [AllCacheableExceptOne.printMem, here vma member passes, ← already vma member passes]
      rfl
    · apply printMemLoop_elsewhere
      intro vma member passes same
      exact met ⟨vma, member, passes, same⟩

def OnHeap (mm : Mm) (address : Nat) : Prop :=
  ∃ vma ∈ mm.mmap, heapTest mm vma = true ∧ address ∈ vma.pageAddrs

instance (mm : Mm) (address : Nat) : Decidable (OnHeap mm address) :=
  inferInstanceAs (Decidable (∃ vma ∈ mm.mmap, _))

def NumbersHeapPage (mm : Mm) (p : Int) : Prop :=
  ∃ vma ∈ mm.mmap, heapTest mm vma = true ∧ 1 ≤ p ∧ p ≤ vma.pageCount

/-- Only entries of the heap are touched, and none changes for a bad number. -/
structure OnePageModule.KeepsToHeap (onePage : OnePageModule) (p : Int) (mm : Mm) : Prop where
  touched : ∀ access ∈ onePage.accesses p mm, ∃ page, access.page = some page ∧ OnHeap mm page
  unchanged : ¬ NumbersHeapPage mm p → (onePage.visit p mm).pte = mm.pte

/-- Counted from each area that passes the test, the page has an entry and lies in the area,
up to a multiple of the address space, or in another one that passes it; and the number is
good or the entries met are already as they are set. -/
structure MeetsHeap (p : Int) (mm : Mm) : Prop where
  tabled : ∀ vma ∈ mm.mmap, heapTest mm vma = true →
    mm.hasTable (pageAddr vma.vmStart p) = true
  lands : ∀ vma ∈ mm.mmap, heapTest mm vma = true →
    (p - 1) % 0x100000 < vma.pageCount ∨
      ∃ other ∈ mm.mmap, heapTest mm other = true ∧ other ≠ vma ∧
        pageAddr vma.vmStart p ∈ other.pageAddrs
  numbered : NumbersHeapPage mm p ∨ ∀ vma ∈ mm.mmap, heapTest mm vma = true →
    (mm.pte (pageAddr vma.vmStart p)).prot = pgprotNoncached vma.vmPageProt

private theorem pageAddr_mem_iff (vma : Vma) (p : Int) :
    pageAddr vma.vmStart p ∈ vma.pageAddrs ↔ (p - 1) % 0x100000 < vma.pageCount := by
  have size := vma.size_eq
  have bounded := vma.bounded
  have aligned := vma.startAligned
  rw [vma.mem_pageAddrs_iff]
  simp only [pageAddr, pageSize] at *
  omega

private theorem onHeap_pageAddr_iff (mm : Mm) (vma : Vma) (p : Int) (member : vma ∈ mm.mmap)
    (passes : heapTest mm vma = true) :
    OnHeap mm (pageAddr vma.vmStart p) ↔
      (p - 1) % 0x100000 < vma.pageCount ∨
        ∃ other ∈ mm.mmap, heapTest mm other = true ∧ other ≠ vma ∧
          pageAddr vma.vmStart p ∈ other.pageAddrs := by
  rw [← pageAddr_mem_iff]
  constructor
  · intro onHeap
    obtain ⟨other, otherMember, otherPasses, inside⟩ := onHeap
    by_cases same : other = vma
    · rw [same] at inside
      exact Or.inl inside
    · exact Or.inr ⟨other, otherMember, otherPasses, same, inside⟩
  · intro lands
    rcases lands with inside | ⟨other, otherMember, otherPasses, _different, inside⟩
    · exact ⟨vma, member, passes, inside⟩
    · exact ⟨other, otherMember, otherPasses, inside⟩

private theorem accesses_onHeap_iff (onePage : OnePageModule) (p : Int) (mm : Mm)
    (works : ¬ onePage.Baseline p) :
    (∀ access ∈ onePage.accesses p mm, ∃ page, access.page = some page ∧ OnHeap mm page) ↔
      ∀ vma ∈ mm.mmap, heapTest mm vma = true →
        mm.hasTable (pageAddr vma.vmStart p) = true ∧ OnHeap mm (pageAddr vma.vmStart p) := by
  rw [OnePageModule.accesses, if_neg works]
  have loop := mem_accessesLoop onePage p mm.mmap mm.sorted mm
  constructor
  · intro touched vma member passes
    obtain ⟨access, emitted⟩ := onePage.setPageAccesses_nonempty p mm vma
    obtain ⟨page, isPage, onHeap⟩ := touched access
      ((loop access).mpr ⟨vma, member, passes, emitted⟩)
    rw [onePage.mem_setPageAccesses p mm vma access emitted] at isPage
    split at isPage
    · rename_i tabled
      rw [Option.some.inj isPage]
      exact ⟨by rw [← Option.some.inj isPage]; exact tabled, onHeap⟩
    · cases isPage
  · intro onHeap access member
    obtain ⟨vma, vmaMember, passes, emitted⟩ := (loop access).mp member
    obtain ⟨tabled, here⟩ := onHeap vma vmaMember passes
    rw [onePage.mem_setPageAccesses p mm vma access emitted, if_pos tabled]
    exact ⟨_, rfl, here⟩

theorem keepsToHeap_iff (onePage : OnePageModule) (p : Int) (mm : Mm) :
    onePage.KeepsToHeap p mm ↔ onePage.Baseline p ∨ MeetsHeap p mm := by
  by_cases baseline : onePage.Baseline p
  · apply iff_of_true _ (Or.inl baseline)
    constructor
    · intro access member
      rw [OnePageModule.accesses, if_pos baseline] at member
      cases member
    · intro _bad
      rw [OnePageModule.visit, if_pos baseline]
  · rw [or_iff_right baseline]
    have touched := accesses_onHeap_iff onePage p mm baseline
    have kept := printMem_pte_eq_iff p mm
    constructor
    · intro keeps
      have met := touched.mp keeps.touched
      have tabled (vma : Vma) (member : vma ∈ mm.mmap) (passes : heapTest mm vma = true) :=
        (met vma member passes).1
      refine ⟨tabled, ?_, ?_⟩
      · intro vma member passes
        exact (onHeap_pageAddr_iff mm vma p member passes).mp (met vma member passes).2
      · by_cases good : NumbersHeapPage mm p
        · exact Or.inl good
        · have unchanged := keeps.unchanged good
          rw [OnePageModule.visit, if_neg baseline] at unchanged
          exact Or.inr ((kept tabled).mp unchanged)
    · intro meets
      constructor
      · apply touched.mpr
        intro vma member passes
        exact ⟨meets.tabled vma member passes,
          (onHeap_pageAddr_iff mm vma p member passes).mpr (meets.lands vma member passes)⟩
      · intro bad
        rw [OnePageModule.visit, if_neg baseline]
        exact (kept meets.tabled).mpr (meets.numbered.resolve_left bad)

/-- Three pages, and the entry behind them is made noncacheable. -/
theorem page_behind_heap_touched :
    ¬ OnePageModule.allCacheableExceptOne.KeepsToHeap 4 sampleMm ∧
      ¬ OnePageModule.allCacheableExceptOneSdVbs.KeepsToHeap 4 sampleMm := by
  have outside : ¬ OnHeap sampleMm 0x13000 := by decide
  constructor
  · intro keeps
    obtain ⟨page, isPage, onHeap⟩ := keeps.touched (.set 0x13000) (by decide)
    rw [← Option.some.inj isPage] at onHeap
    exact outside onHeap
  · intro keeps
    obtain ⟨page, isPage, onHeap⟩ := keeps.touched (.set 0x13000) (by decide)
    rw [← Option.some.inj isPage] at onHeap
    exact outside onHeap

end BlackboxProfiling
