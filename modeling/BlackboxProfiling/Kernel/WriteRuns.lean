import BlackboxProfiling.Kernel.BothMultiple
import BlackboxProfiling.Kernel.FunctimeKernelModule
import BlackboxProfiling.Kernel.PteFlags
import BlackboxProfiling.Kernel.RangeSplitting
import BlackboxProfiling.Kernel.SdVbs

/-!
Runs of writes to `/proc/memprofile`, to any of the modules and in any order. No
module gives a page its cacheability back, so what a run leaves is the union of what
its writes chose. The layout of the areas stays, and so do the frames that no populate
step replaces.
-/

namespace BlackboxProfiling

structure Extent where
  vmStart : Nat
  vmEnd : Nat
  copied : Bool

def Vma.extent (vma : Vma) : Extent :=
  ⟨vma.vmStart, vma.vmEnd, vma.vmFlags.write && !vma.vmFlags.shared⟩

def Extent.pages (extent : Extent) : List Nat :=
  pageAddrs extent.vmStart (extent.vmEnd - extent.vmStart)

structure Layout where
  extents : List Extent
  startBrk : Nat
  brk : Nat

def Mm.layout (mm : Mm) : Layout := ⟨mm.mmap.map Vma.extent, mm.startBrk, mm.brk⟩

def Layout.passes (layout : Layout) (extent : Extent) : Bool :=
  decide (extent.vmStart ≤ layout.brk) && decide (layout.startBrk ≤ extent.vmEnd)

/-- The pages of an area that the multi-page modules rebuild. -/
def Extent.Chosen (extent : Extent) (shouldSkip : Bool) (pages : List Int) (address : Nat) : Prop :=
  address ∈ extent.pages ∧ (address ∈ pages.map (pageAddr extent.vmStart) ↔ shouldSkip = true)

def Mm.Accessible (mm : Mm) : Prop := ∀ vma ∈ mm.mmap, vma.vmPageProt.present = true

private theorem store_layout (mm : Mm) (start : Nat) (table : PageTable) (prot : Pgprot) :
    (mm.store start table prot).layout = mm.layout := by
  have extents : (setProtAt start prot mm.mmap).map Vma.extent = mm.mmap.map Vma.extent := by
    rw [setProtAt, List.map_map]
    apply List.map_congr_left
    intro vma _member
    simp only [Function.comp_apply]
    split
    · rfl
    · rfl
  simp only [Mm.layout, Mm.store, extents]

private theorem store_accessible (mm : Mm) (start : Nat) (table : PageTable) (prot : Pgprot)
    (accessible : mm.Accessible) (present : prot.present = true) :
    (mm.store start table prot).Accessible := by
  intro vma member
  obtain ⟨earlier, earlierMember, rfl⟩ := List.mem_map.mp member
  split
  · exact present
  · exact accessible earlier earlierMember

/-- No populate step gives the page another frame: nobody else maps the one it has, or the
area is not copied on a write. -/
def Mm.Steady (gup : GetUserPages) (mm : Mm) (address : Nat) : Prop :=
  gup.shared (mm.pte address).pfn = false ∨
    ∀ extent ∈ mm.layout.extents, address ∈ extent.pages → extent.copied = false

/-- Steady pages that are present keep their frames, and those that lose their cacheability
are the chosen ones. -/
structure Rebuilt (gup : GetUserPages) (chosen : Nat → Prop) (before after : Mm) : Prop where
  layout : after.layout = before.layout
  accessible : after.Accessible
  pages : ∀ address, (before.pte address).present = true → before.Steady gup address →
    (after.pte address).present = true ∧ (after.pte address).pfn = (before.pte address).pfn ∧
      ((after.pte address).cacheable = false ↔
        (before.pte address).cacheable = false ∨ chosen address)

theorem Rebuilt.nothing (gup : GetUserPages) (mm : Mm) (accessible : mm.Accessible) :
    Rebuilt gup (fun _address => False) mm mm :=
  { layout := rfl
    accessible := accessible
    pages := fun _address present _steady => ⟨present, rfl, (or_iff_left False.elim).symm⟩ }

theorem Rebuilt.trans {gup : GetUserPages} {earlier later : Nat → Prop} {first second third : Mm}
    (one : Rebuilt gup earlier first second) (two : Rebuilt gup later second third) :
    Rebuilt gup (fun address => earlier address ∨ later address) first third := by
  refine ⟨two.layout.trans one.layout, two.accessible, ?_⟩
  intro address present steady
  obtain ⟨stays, frame, selected⟩ := one.pages address present steady
  have steadyStill : second.Steady gup address := by
    rw [Mm.Steady, frame, one.layout]
    exact steady
  obtain ⟨still, sameFrame, selectedLater⟩ := two.pages address stays steadyStill
  refine ⟨still, sameFrame.trans frame, ?_⟩
  rw [selectedLater, selected, or_assoc]

theorem Rebuilt.congr {gup : GetUserPages} {left right : Nat → Prop} {before after : Mm}
    (same : ∀ address, left address ↔ right address) (rebuilt : Rebuilt gup left before after) :
    Rebuilt gup right before after := by
  have equal : left = right := funext (fun address => propext (same address))
  rw [← equal]
  exact rebuilt

private theorem setPage_rebuilt (gup : GetUserPages) (p : Int) (mm : Mm) (vma : Vma)
    (accessible : mm.Accessible) (present : vma.vmPageProt.present = true) :
    Rebuilt gup (fun address => address = pageAddr vma.vmStart p) mm
      (AllCacheableExceptOne.setPage p mm vma) := by
  obtain ⟨table, stored⟩ := AllCacheableExceptOne.setPage_eq p mm vma
  refine ⟨?_, ?_, ?_⟩
  · rw [stored]
    exact store_layout mm _ _ _
  · rw [stored]
    exact store_accessible mm _ _ _ accessible present
  · intro address here _steady
    by_cases hit : address = pageAddr vma.vmStart p
    · subst hit
      have set : mm.pte (pageAddr vma.vmStart p) ≠ pteNone := by
        intro empty
        rw [empty] at here
        cases here
      rw [AllCacheableExceptOne.setPage_switched p mm vma (mm.hasTable_of_set _ set)]
      exact ⟨present, rfl, iff_of_true rfl (Or.inr rfl)⟩
    · rw [AllCacheableExceptOne.setPage_kept p mm vma address (Or.inl hit)]
      exact ⟨here, rfl, (or_iff_left hit).symm⟩

/-- A walk over an area, from a table in which the steady pages present before have their
frames and memory types. -/
theorem walked_rebuilt (gup : GetUserPages) (skip : Nat → Bool) (mm : Mm) (vma : Vma)
    (table : PageTable) (accessible : mm.Accessible) (present : vma.vmPageProt.present = true)
    (kept : ∀ address, (mm.pte address).present = true → mm.Steady gup address →
      (table address).present = true ∧ (table address).pfn = (mm.pte address).pfn ∧
        (table address).prot.memType = (mm.pte address).prot.memType) :
    Rebuilt gup (fun address => address ∈ vma.pageAddrs ∧ skip address = false) mm
      (mm.store vma.vmStart (modifiedTable skip vma.pageAddrs vma.vmPageProt table)
        (modifiedProt skip vma.pageAddrs vma.vmPageProt)) := by
  have protPresent : (modifiedProt skip vma.pageAddrs vma.vmPageProt).present = true := by
    unfold modifiedProt
    split <;> exact present
  refine ⟨store_layout mm _ _ _, store_accessible mm _ _ _ accessible protPresent, ?_⟩
  intro address here steady
  obtain ⟨stays, frame, memType⟩ := kept address here steady
  rw [Mm.store_pte]
  by_cases hit : address ∈ vma.pageAddrs ∧ skip address = false
  · rw [modifiedTable_chosen skip _ _ table address hit.1 hit.2]
    exact ⟨present, frame, iff_of_true rfl (Or.inr hit)⟩
  · have same : modifiedTable skip vma.pageAddrs vma.vmPageProt table address = table address :=
      if_neg hit
    rw [same]
    refine ⟨stays, frame, ?_⟩
    rw [Pte.cacheable, memType]
    exact (or_iff_left hit).symm

private theorem changeArea_rebuilt (gup : GetUserPages) (fuel : Nat) (shouldSkip : Bool)
    (pages : List Int)
    (mm mm' : Mm) (vma : Vma) (accessible : mm.Accessible) (member : vma ∈ mm.mmap)
    (changed : changeArea gup fuel (fun listed => modifyPage (skipPage shouldSkip listed)) pages
      mm vma = some mm') :
    Rebuilt gup (vma.extent.Chosen shouldSkip pages) mm mm' := by
  obtain ⟨ret, table, populated, rfl⟩ := changeArea_eq gup fuel shouldSkip pages mm mm' vma changed
  have kept (address : Nat) (here : (mm.pte address).present = true)
      (steady : mm.Steady gup address) :
      (table address).present = true ∧ (table address).pfn = (mm.pte address).pfn ∧
        (table address).prot.memType = (mm.pte address).prot.memType := by
    by_cases inside : address ∈ vma.pageAddrs
    · have keeps := mmPopulateMod_keeps gup fuel mm vma member ret table populated address here
      apply keeps.uncopied here
      apply Bool.and_eq_false_iff.mpr
      rcases steady with owned | uncopied
      · exact Or.inr owned
      · have area := uncopied vma.extent (List.mem_map_of_mem member) inside
        exact Or.inl (Bool.and_eq_false_iff.mpr (Or.inl area))
    · rw [mmPopulateMod_outside gup fuel mm vma member ret table populated address inside]
      exact ⟨here, rfl, rfl⟩
  apply (walked_rebuilt gup (skipPage shouldSkip (listedAddrs pages vma)) mm vma table accessible
    (accessible vma member) kept).congr
  intro address
  exact and_congr_right (fun _inside => skipPage_eq_false_iff shouldSkip _ address)

private theorem extents_cons_exists (vma : Vma) (rest : List Vma) (holds : Extent → Prop) :
    (∃ extent ∈ (vma :: rest).map Vma.extent, holds extent) ↔
      holds vma.extent ∨ ∃ extent ∈ rest.map Vma.extent, holds extent := by
  simp only [List.map_cons, List.mem_cons, exists_eq_or_imp]

private theorem printMemLoop_rebuilt (gup : GetUserPages) (p : Int) (areas : List Vma) (mm : Mm)
    (accessible : mm.Accessible)
    (present : ∀ vma ∈ areas, vma.vmPageProt.present = true) :
    Rebuilt gup (fun address => ∃ extent ∈ areas.map Vma.extent,
        mm.layout.passes extent = true ∧ address = pageAddr extent.vmStart p) mm
      (AllCacheableExceptOne.printMemLoop p areas mm) := by
  induction areas generalizing mm with
  | nil =>
      apply (Rebuilt.nothing gup mm accessible).congr
      intro address
      simp only [List.map_nil, List.not_mem_nil, false_and, exists_false]
  | cons vma rest ih =>
      have restPresent : ∀ other ∈ rest, other.vmPageProt.present = true :=
        fun other member => present other (List.mem_cons_of_mem vma member)
      simp only [AllCacheableExceptOne.printMemLoop]
      split
      · rename_i passes
        have first := setPage_rebuilt gup p mm vma accessible (present vma List.mem_cons_self)
        apply (first.trans (ih _ first.accessible restPresent)).congr
        intro address
        rw [extents_cons_exists, first.layout]
        exact or_congr (and_iff_right passes).symm Iff.rfl
      · rename_i fails
        apply (ih mm accessible restPresent).congr
        intro address
        rw [extents_cons_exists]
        exact (or_iff_right (fun both => fails both.1)).symm

private theorem changeAreas_rebuilt (gup : GetUserPages) (p : Int) (areas : List Vma) (mm : Mm)
    (accessible : mm.Accessible)
    (present : ∀ vma ∈ areas, vma.vmPageProt.present = true) :
    Rebuilt gup (fun address => ∃ extent ∈ areas.map Vma.extent,
        mm.layout.passes extent = true ∧ address ∈ extent.pages ∧
          address ≠ pageAddr extent.vmStart p) mm
      (AllNoncacheableExceptOneSdVbs.changeAreas p areas mm) := by
  induction areas generalizing mm with
  | nil =>
      apply (Rebuilt.nothing gup mm accessible).congr
      intro address
      simp only [List.map_nil, List.not_mem_nil, false_and, exists_false]
  | cons vma rest ih =>
      have restPresent : ∀ other ∈ rest, other.vmPageProt.present = true :=
        fun other member => present other (List.mem_cons_of_mem vma member)
      simp only [AllNoncacheableExceptOneSdVbs.changeAreas]
      split
      · rename_i passes
        have first := walked_rebuilt gup (fun address => decide (address = pageAddr vma.vmStart p)) mm
          vma mm.pte accessible (present vma List.mem_cons_self) (fun _address here _steady => ⟨here, rfl, rfl⟩)
        have walked := applyToPageRange_modifyPage
          (fun address => decide (address = pageAddr vma.vmStart p)) vma.vmStart
          (vma.vmEnd - vma.vmStart) mm.pte vma.vmPageProt
        have stored : AllNoncacheableExceptOneSdVbs.printMem (pageAddr vma.vmStart p) =
            modifyPage (fun address => decide (address = pageAddr vma.vmStart p)) := rfl
        rw [stored, walked]
        apply (first.trans (ih _ first.accessible restPresent)).congr
        intro address
        rw [extents_cons_exists, first.layout]
        apply or_congr _ Iff.rfl
        rw [decide_eq_false_iff_not]
        exact (and_iff_right passes).symm
      · rename_i fails
        apply (ih mm accessible restPresent).congr
        intro address
        rw [extents_cons_exists]
        exact (or_iff_right (fun both => fails both.1)).symm

private theorem vmaFinderLoop_rebuilt (gup : GetUserPages) (fuel : Nat)
    (cp : FunctimeKernelModule.Params)
    (requests : List Int) (count : Nat) (mm mm' : Mm) (accessible : mm.Accessible)
    (ran : FunctimeKernelModule.vmaFinderLoop gup fuel cp requests count mm = some mm') :
    Rebuilt gup (fun address =>
        ∃ index ∈ FunctimeKernelModule.served mm.layout.extents.length requests count,
          ∃ extent, mm.layout.extents[index]? = some extent ∧
            extent.Chosen cp.shouldSkip cp.pageAddr address) mm mm' := by
  induction requests generalizing count mm with
  | nil =>
      have same : mm = mm' := Option.some.inj ran
      subst same
      apply (Rebuilt.nothing gup mm accessible).congr
      intro address
      simp only [FunctimeKernelModule.served, List.not_mem_nil, false_and, exists_false]
  | cons request rest ih =>
      have length : mm.layout.extents.length = mm.mmap.length := List.length_map _
      cases sought : FunctimeKernelModule.seekVma request (mm.mmap.length - count) count with
      | mk stop next =>
          simp only [FunctimeKernelModule.vmaFinderLoop, sought] at ran
          cases stop with
          | none =>
              apply (ih next mm accessible ran).congr
              intro address
              simp only [FunctimeKernelModule.served, length, sought]
          | some index =>
              dsimp only at ran
              split at ran
              · cases ran
              · rename_i vma found
                split at ran
                · cases ran
                · rename_i changed walked
                  have member : vma ∈ mm.mmap := List.mem_of_getElem? found
                  have first := changeArea_rebuilt gup fuel cp.shouldSkip cp.pageAddr mm changed
                    vma accessible member walked
                  have here : mm.layout.extents[index]? = some vma.extent := by
                    simp only [Mm.layout, List.getElem?_map, found, Option.map_some]
                  have only (address : Nat) :
                      (∃ extent, mm.layout.extents[index]? = some extent ∧
                        extent.Chosen cp.shouldSkip cp.pageAddr address) ↔
                        vma.extent.Chosen cp.shouldSkip cp.pageAddr address := by
                    simp only [here, Option.some.injEq, exists_eq_left']
                  apply (first.trans (ih next changed first.accessible ran)).congr
                  intro address
                  simp only [FunctimeKernelModule.served, first.layout, length, sought,
                    List.mem_cons, exists_eq_or_imp, only]

/-! ### Writes to the modules -/

inductive ModuleWrite where
  | allCacheableExceptOne (copied : Bool) (p : Int)
  | allNoncacheableExceptOne (copied : Bool) (p : Int)
  | allCacheableExceptOneSdVbs (copied : Bool) (p : Int)
  | allNoncacheableExceptOneSdVbs (copied : Bool) (p : Int)
  | bothMultiple (copies : BothMultiple.CopyOutcome) (cp : BothMultiple.Params)
  | functimeKernelModule (headerCopied : Bool) (cp : FunctimeKernelModule.Params)

def ModuleWrite.procWrite (gup : GetUserPages) (fuel : Nat) (processes : TaskList) :
    ModuleWrite → Option (Int × TaskList)
  | .allCacheableExceptOne copied p =>
      AllCacheableExceptOne.memprofileProcWrite copied p processes
  | .allNoncacheableExceptOne copied p =>
      AllNoncacheableExceptOne.memprofileProcWrite copied p processes
  | .allCacheableExceptOneSdVbs copied p =>
      AllCacheableExceptOneSdVbs.memprofileProcWrite copied p processes
  | .allNoncacheableExceptOneSdVbs copied p =>
      AllNoncacheableExceptOneSdVbs.memprofileProcWrite copied p processes
  | .bothMultiple copies cp => BothMultiple.memprofileProcWrite gup fuel copies cp processes
  | .functimeKernelModule headerCopied cp =>
      FunctimeKernelModule.memprofileProcWrite gup fuel headerCopied cp processes

/-- The writes of a run one after the other; none when the kernel dies on one. -/
def procWrites (gup : GetUserPages) (fuel : Nat) : List ModuleWrite → TaskList → Option TaskList
  | [], processes => some processes
  | write :: rest, processes =>
      match write.procWrite gup fuel processes with
      | none => none
      | some (_ret, after) => procWrites gup fuel rest after

/-- The pages of a process that a write makes noncacheable. The callback of
`all_noncacheable_except_one.c` makes none so. -/
def ModuleWrite.Chooses (task : Task) (layout : Layout) (address : Nat) : ModuleWrite → Prop
  | .allCacheableExceptOne copied p =>
      copied = true ∧ task.comm = "hello" ∧
        ∃ extent ∈ layout.extents, layout.passes extent = true ∧
          address = pageAddr extent.vmStart p
  | .allNoncacheableExceptOne _copied _p => False
  | .allCacheableExceptOneSdVbs copied p =>
      (copied = true ∧ p ≠ 0) ∧ task.comm = "mser" ∧
        ∃ extent ∈ layout.extents, layout.passes extent = true ∧
          address = pageAddr extent.vmStart p
  | .allNoncacheableExceptOneSdVbs copied p =>
      copied = true ∧ task.comm = "mser" ∧
        ∃ extent ∈ layout.extents, layout.passes extent = true ∧ address ∈ extent.pages ∧
          address ≠ pageAddr extent.vmStart p
  | .bothMultiple copies cp =>
      (copies.header = true ∧ copies.buff = true) ∧ task.pid = cp.pid ∧
        ∃ extent, layout.extents.find? layout.passes = some extent ∧
          extent.Chosen cp.shouldSkip cp.buff address
  | .functimeKernelModule headerCopied cp =>
      headerCopied = true ∧ task.pid = cp.pid ∧
        ∃ index ∈ FunctimeKernelModule.served layout.extents.length cp.vmaParam 0,
          ∃ extent, layout.extents[index]? = some extent ∧
            extent.Chosen cp.shouldSkip cp.pageAddr address

def Visits (gup : GetUserPages) (body : Task → Option (Option Mm))
    (chosen : Task → Layout → Nat → Prop) : Prop :=
  ∀ (task : Task) (mm : Mm) (left : Option Mm), task.mm = some mm → mm.Accessible →
    body task = some left → ∃ mm', left = some mm' ∧ Rebuilt gup (chosen task mm.layout) mm mm'

theorem Visits.written {gup : GetUserPages} {body : Task → Option (Option Mm)}
    {chosen : Task → Layout → Nat → Prop} (visits : Visits gup body chosen) (before after : TaskList)
    (ret : Int) (ran : (forEachProcess body before).map (fun list => ((0 : Int), list)) =
      some (ret, after))
    (task : Task) (mm : Mm) (member : task ∈ before.tasks) (atTask : task.mm = some mm)
    (accessible : mm.Accessible) :
    ∃ mm', { task with mm := some mm' } ∈ after.tasks ∧ Rebuilt gup (chosen task mm.layout) mm mm' := by
  obtain ⟨list, visited, same⟩ := Option.map_eq_some_iff.mp ran
  cases same
  obtain ⟨left, atVisit, present⟩ :=
    visitTasks_member _ _ _ (forEachProcess_tasks _ before after visited) task member
  obtain ⟨mm', isLeft, rebuilt⟩ := visits task mm left atTask accessible atVisit
  rw [isLeft] at present
  exact ⟨mm', present, rebuilt⟩

private theorem Rebuilt.unchosen (gup : GetUserPages) (mm : Mm) (accessible : mm.Accessible)
    (chosen : Nat → Prop)
    (none : ∀ address, ¬ chosen address) : Rebuilt gup chosen mm mm :=
  (Rebuilt.nothing gup mm accessible).congr (fun address => iff_of_false id (none address))

theorem visits_targets (gup : GetUserPages) (targets : Task → Prop) [DecidablePred targets]
    (body : Mm → Option Mm)
    (chosen : Layout → Nat → Prop)
    (works : ∀ mm mm', mm.Accessible → body mm = some mm' → Rebuilt gup (chosen mm.layout) mm mm')
    (visit : Task → Option (Option Mm))
    (visited : ∀ task mm, task.mm = some mm →
      visit task = if targets task then (body mm).map some else some (some mm)) :
    Visits gup visit (fun task layout address => targets task ∧ chosen layout address) := by
  intro task mm left atTask accessible ran
  rw [visited task mm atTask] at ran
  split at ran
  · rename_i named
    obtain ⟨mm', worked, rfl⟩ := Option.map_eq_some_iff.mp ran
    refine ⟨mm', rfl, (works mm mm' accessible worked).congr ?_⟩
    intro address
    exact (and_iff_right named).symm
  · rename_i other
    refine ⟨mm, (Option.some.inj ran).symm, Rebuilt.unchosen gup mm accessible _ ?_⟩
    intro address both
    exact other both.1

private theorem printMem_rebuilt (gup : GetUserPages) (p : Int) (mm : Mm) (accessible : mm.Accessible) :
    Rebuilt gup (fun address => ∃ extent ∈ mm.layout.extents,
        mm.layout.passes extent = true ∧ address = pageAddr extent.vmStart p) mm
      (AllCacheableExceptOne.printMem p mm) :=
  printMemLoop_rebuilt gup p mm.mmap mm accessible accessible

private theorem allCacheableExceptOne_visits (gup : GetUserPages) (p : Int) :
    Visits gup (AllCacheableExceptOne.visitTask p) (fun task layout address =>
      task.comm = "hello" ∧ ∃ extent ∈ layout.extents, layout.passes extent = true ∧
        address = pageAddr extent.vmStart p) := by
  apply visits_targets gup (fun task => task.comm = "hello")
    (fun mm => some (AllCacheableExceptOne.printMem p mm))
  · intro mm mm' accessible worked
    cases worked
    exact printMem_rebuilt gup p mm accessible
  · intro task mm atTask
    simp only [AllCacheableExceptOne.visitTask, atTask]
    rfl

private theorem allNoncacheableExceptOne_visits (gup : GetUserPages) (p : Int) :
    Visits gup (AllNoncacheableExceptOne.visitTask p) (fun task _layout _address =>
      task.comm = "hello" ∧ False) := by
  apply visits_targets gup (fun task => task.comm = "hello")
    (fun mm => (AllNoncacheableExceptOne.changeMm p mm).map (fun _handed => mm))
  · intro mm mm' accessible worked
    obtain ⟨_handed, _ran, rfl⟩ := Option.map_eq_some_iff.mp worked
    exact Rebuilt.nothing gup mm accessible
  · intro task mm atTask
    simp only [AllNoncacheableExceptOne.visitTask, atTask, Option.map_map]
    rfl

private theorem allCacheableExceptOneSdVbs_visits (gup : GetUserPages) (p : Int) :
    Visits gup (visitMser (fun mm => some (AllCacheableExceptOneSdVbs.printMem p mm)))
      (fun task layout address =>
        task.comm = "mser" ∧ ∃ extent ∈ layout.extents, layout.passes extent = true ∧
          address = pageAddr extent.vmStart p) := by
  apply visits_targets gup (fun task => task.comm = "mser")
    (fun mm => some (AllCacheableExceptOneSdVbs.printMem p mm))
  · intro mm mm' accessible worked
    cases worked
    exact printMem_rebuilt gup p mm accessible
  · intro task mm atTask
    simp only [visitMser, atTask]

private theorem allNoncacheableExceptOneSdVbs_visits (gup : GetUserPages) (p : Int) :
    Visits gup (visitMser (AllNoncacheableExceptOneSdVbs.changeMm p)) (fun task layout address =>
      task.comm = "mser" ∧ ∃ extent ∈ layout.extents, layout.passes extent = true ∧
        address ∈ extent.pages ∧ address ≠ pageAddr extent.vmStart p) := by
  apply visits_targets gup (fun task => task.comm = "mser") (AllNoncacheableExceptOneSdVbs.changeMm p)
  · intro mm mm' accessible worked
    unfold AllNoncacheableExceptOneSdVbs.changeMm at worked
    split at worked
    · cases worked
    · cases worked
      exact changeAreas_rebuilt gup p mm.mmap mm accessible accessible
  · intro task mm atTask
    simp only [visitMser, atTask]

private theorem findHeap_extent (mm : Mm) :
    mm.layout.extents.find? mm.layout.passes = (BothMultiple.findHeap mm).map Vma.extent :=
  List.find?_map

private theorem bothMultiple_visits (gup : GetUserPages) (fuel : Nat) (cp : BothMultiple.Params) :
    Visits gup (BothMultiple.visitTask gup fuel cp) (fun task layout address =>
      task.pid = cp.pid ∧ ∃ extent, layout.extents.find? layout.passes = some extent ∧
        extent.Chosen cp.shouldSkip cp.buff address) := by
  apply visits_targets gup (fun task => task.pid = cp.pid)
    (fun mm => (BothMultiple.findHeap mm).elim (some mm) (BothMultiple.changeHeap gup fuel cp mm))
  · intro mm mm' accessible worked
    rw [findHeap_extent]
    cases found : BothMultiple.findHeap mm with
    | none =>
        rw [found] at worked
        cases worked
        apply Rebuilt.unchosen gup mm accessible
        intro address both
        obtain ⟨extent, absent, _chosen⟩ := both
        cases absent
    | some vma =>
        rw [found] at worked
        have member : vma ∈ mm.mmap := List.mem_of_find?_eq_some found
        apply (changeArea_rebuilt gup fuel cp.shouldSkip cp.buff mm mm' vma accessible member
          worked).congr
        intro address
        simp only [Option.map_some, Option.some.injEq, exists_eq_left']
  · intro task mm atTask
    simp only [BothMultiple.visitTask, atTask]
    cases BothMultiple.findHeap mm <;> rfl

private theorem functimeKernelModule_visits (gup : GetUserPages) (fuel : Nat)
    (cp : FunctimeKernelModule.Params) :
    Visits gup (FunctimeKernelModule.visitTask gup fuel cp) (fun task layout address =>
      task.pid = cp.pid ∧
        ∃ index ∈ FunctimeKernelModule.served layout.extents.length cp.vmaParam 0,
          ∃ extent, layout.extents[index]? = some extent ∧
            extent.Chosen cp.shouldSkip cp.pageAddr address) := by
  apply visits_targets gup (fun task => task.pid = cp.pid) (FunctimeKernelModule.vmaFinder gup fuel cp)
  · intro mm mm' accessible worked
    unfold FunctimeKernelModule.vmaFinder at worked
    split at worked
    · cases worked
    · exact vmaFinderLoop_rebuilt gup fuel cp cp.vmaParam 0 mm mm' accessible worked
  · intro task mm atTask
    simp only [FunctimeKernelModule.visitTask, atTask]

theorem Visits.guarded {gup : GetUserPages} {body : Task → Option (Option Mm)}
    {chosen : Task → Layout → Nat → Prop}
    (visits : Visits gup body chosen) (goes : Prop) [Decidable goes] (code : Int)
    (before after : TaskList) (ret : Int)
    (ran : (if goes then (forEachProcess body before).map (fun list => ((0 : Int), list))
      else some (code, before)) = some (ret, after))
    (task : Task) (mm : Mm) (member : task ∈ before.tasks) (atTask : task.mm = some mm)
    (accessible : mm.Accessible) :
    ∃ mm', { task with mm := some mm' } ∈ after.tasks ∧
      Rebuilt gup (fun address => goes ∧ chosen task mm.layout address) mm mm' := by
  split at ran
  · rename_i works
    obtain ⟨mm', present, rebuilt⟩ :=
      visits.written before after ret ran task mm member atTask accessible
    exact ⟨mm', present, rebuilt.congr (fun _address => (and_iff_right works).symm)⟩
  · rename_i refused
    cases ran
    have same : { task with mm := some mm } = task := by rw [← atTask]
    refine ⟨mm, ?_, Rebuilt.unchosen gup mm accessible _ (fun _address both => refused both.1)⟩
    rw [same]
    exact member

private theorem ModuleWrite.procWrite_rebuilt (write : ModuleWrite) (gup : GetUserPages) (fuel : Nat)
    (before after : TaskList) (ret : Int)
    (wrote : write.procWrite gup fuel before = some (ret, after)) (task : Task) (mm : Mm)
    (member : task ∈ before.tasks) (atTask : task.mm = some mm) (accessible : mm.Accessible) :
    ∃ mm', { task with mm := some mm' } ∈ after.tasks ∧
      Rebuilt gup (fun address => write.Chooses task mm.layout address) mm mm' := by
  cases write with
  | allCacheableExceptOne copied p =>
      apply (allCacheableExceptOne_visits gup p).guarded (copied = true) (-AllCacheableExceptOne.efault)
        before after ret _ task mm member atTask accessible
      rw [← wrote]
      cases copied <;> rfl
  | allNoncacheableExceptOne copied p =>
      obtain ⟨mm', present, rebuilt⟩ := (allNoncacheableExceptOne_visits gup p).guarded
        (copied = true) (-AllNoncacheableExceptOne.efault) before after ret
        (by rw [← wrote]; cases copied <;> rfl) task mm member atTask accessible
      refine ⟨mm', present, rebuilt.congr ?_⟩
      intro address
      exact iff_of_false (fun both => both.2.2) id
  | allCacheableExceptOneSdVbs copied p =>
      cases copied with
      | false =>
          apply (allCacheableExceptOneSdVbs_visits gup p).guarded (false = true ∧ p ≠ 0)
            (-AllCacheableExceptOneSdVbs.efault) before after ret _ task mm member atTask accessible
          rw [← wrote]
          rfl
      | true =>
          apply (allCacheableExceptOneSdVbs_visits gup p).guarded (true = true ∧ p ≠ 0) 0
            before after ret _ task mm member atTask accessible
          rw [← wrote]
          simp only [procWrite, AllCacheableExceptOneSdVbs.memprofileProcWrite, true_and,
            Bool.true_eq_false, if_false, ite_not]
  | allNoncacheableExceptOneSdVbs copied p =>
      apply (allNoncacheableExceptOneSdVbs_visits gup p).guarded (copied = true)
        (-AllNoncacheableExceptOneSdVbs.efault) before after ret _ task mm member atTask accessible
      rw [← wrote]
      cases copied <;> rfl
  | bothMultiple copies cp =>
      apply (bothMultiple_visits gup fuel cp).guarded (copies.header = true ∧ copies.buff = true)
        (-BothMultiple.efault) before after ret _ task mm member atTask accessible
      rw [← wrote]
      obtain ⟨header, buff⟩ := copies
      cases header <;> cases buff <;> rfl
  | functimeKernelModule headerCopied cp =>
      apply (functimeKernelModule_visits gup fuel cp).guarded (headerCopied = true)
        (-FunctimeKernelModule.efault) before after ret _ task mm member atTask accessible
      rw [← wrote]
      cases headerCopied <;> rfl

/-! ### Runs of writes -/

private theorem procWrites_rebuilt (gup : GetUserPages) (fuel : Nat) (writes : List ModuleWrite)
    (before after : TaskList) (ran : procWrites gup fuel writes before = some after)
    (task : Task) (mm : Mm) (member : task ∈ before.tasks) (atTask : task.mm = some mm)
    (accessible : mm.Accessible) :
    ∃ mm', { task with mm := some mm' } ∈ after.tasks ∧
      Rebuilt gup (fun address => ∃ write ∈ writes, write.Chooses task mm.layout address) mm mm' := by
  induction writes generalizing before task mm with
  | nil =>
      cases ran
      have same : { task with mm := some mm } = task := by rw [← atTask]
      refine ⟨mm, ?_, Rebuilt.unchosen gup mm accessible _ ?_⟩
      · rw [same]
        exact member
      · rintro address ⟨write, absent, _chosen⟩
        cases absent
  | cons write rest ih =>
      simp only [procWrites] at ran
      split at ran
      · cases ran
      · rename_i ret middle wrote
        obtain ⟨mm₁, present, first⟩ := write.procWrite_rebuilt gup fuel before middle ret wrote task
          mm member atTask accessible
        obtain ⟨mm₂, left, others⟩ := ih middle ran { task with mm := some mm₁ } mm₁ present rfl
          first.accessible
        refine ⟨mm₂, left, (first.trans others).congr ?_⟩
        intro address
        rw [first.layout]
        simp only [List.mem_cons, exists_eq_or_imp]
        -- the address space of a process plays no part in what a write chooses of it
        apply or_congr Iff.rfl
        apply exists_congr
        intro later
        apply and_congr_right
        intro _member
        cases later <;> rfl

private theorem sampleMm_accessible : sampleMm.Accessible := by
  intro vma member
  rw [List.mem_singleton.mp member]
  rfl

end BlackboxProfiling
