import BlackboxProfiling.Kernel.Processes
import BlackboxProfiling.Kernel.PageModifier

/-!
`functime_kernel_module.c`: a request names areas by their index in the process
instead of testing for the heap. All requested indices share one cursor that only
moves forward, so an index is served only when the cursor has not passed it.
-/

namespace BlackboxProfiling.FunctimeKernelModule

/-- The request `cp` once `filling_params` has copied its three arrays; `vmaParam`
holds the `vma_index` fields. -/
structure Params where
  vmaParam : List Int
  pageAddr : List Int
  shouldSkip : Bool
  pid : Nat

def efault : Int := 14

def cacheabilityModifier (cp : Params) (listed : List Nat) (address : Nat)
    (state : PageTable × Pgprot) : Int × (PageTable × Pgprot) :=
  modifyPage (skipPage cp.shouldSkip listed) address state

/-- The inner loop for one request: the index it stops at, if any, and the value
of `count_vma` afterwards. The first number bounds the rounds left. -/
def seekVma (request : Int) : Nat → Nat → Option Nat × Nat
  | 0, count => (none, count)
  | remaining + 1, count =>
      if (count : Int) = request then (some count, count + 1)
      else seekVma request remaining (count + 1)

def vmaFinderLoop (gup : GetUserPages) (fuel : Nat) (cp : Params) :
    List Int → Nat → Mm → Option Mm
  | [], _count, mm => some mm
  | request :: rest, count, mm =>
      match seekVma request (mm.mmap.length - count) count with
      | (none, next) => vmaFinderLoop gup fuel cp rest next mm
      | (some index, next) =>
          match mm.mmap[index]? with
          | none => none
          | some vma =>
              match changeArea gup fuel (cacheabilityModifier cp) cp.pageAddr mm vma with
              | none => none
              | some changed => vmaFinderLoop gup fuel cp rest next changed

/-- `vma_finder`; it reads the first area before the loops, so a process without
areas is a null dereference. -/
def vmaFinder (gup : GetUserPages) (fuel : Nat) (cp : Params) (mm : Mm) : Option Mm :=
  if mm.mmap = [] then none else vmaFinderLoop gup fuel cp cp.vmaParam 0 mm

def visitTask (gup : GetUserPages) (fuel : Nat) (cp : Params) (task : Task) :
    Option (Option Mm) :=
  if task.pid = cp.pid then
    match task.mm with
    | none => none
    | some mm => (vmaFinder gup fuel cp mm).map some
  else some task.mm

def memprofileProcWrite (gup : GetUserPages) (fuel : Nat) (headerCopied : Bool) (cp : Params)
    (processes : TaskList) : Option (Int × TaskList) :=
  if headerCopied = false then some (-efault, processes)
  else (forEachProcess (visitTask gup fuel cp) processes).map (fun after => (0, after))

def served (mapCount : Nat) : List Int → Nat → List Nat
  | [], _count => []
  | request :: rest, count =>
      match seekVma request (mapCount - count) count with
      | (none, next) => served mapCount rest next
      | (some index, next) => index :: served mapCount rest next

theorem seekVma_next (request : Int) (remaining count : Nat) :
    count ≤ (seekVma request remaining count).2 := by
  induction remaining generalizing count with
  | zero => exact Nat.le_refl count
  | succ remaining ih =>
      simp only [seekVma]
      split
      · exact Nat.le_succ count
      · exact Nat.le_trans (Nat.le_succ count) (ih (count + 1))

theorem seekVma_found (request : Int) (remaining count index next : Nat)
    (found : seekVma request remaining count = (some index, next)) :
    (index : Int) = request ∧ count ≤ index ∧ index < count + remaining ∧ next = index + 1 := by
  induction remaining generalizing count with
  | zero => cases found
  | succ remaining ih =>
      simp only [seekVma] at found
      split at found
      · rename_i here
        cases found
        exact ⟨here, Nat.le_refl _, by omega, rfl⟩
      · obtain ⟨same, above, below, after⟩ := ih (count + 1) found
        exact ⟨same, by omega, by omega, after⟩

theorem seekVma_hit (index remaining count : Nat) (above : count ≤ index)
    (below : index < count + remaining) :
    seekVma index remaining count = (some index, index + 1) := by
  induction remaining generalizing count with
  | zero => omega
  | succ remaining ih =>
      simp only [seekVma]
      split
      · rename_i here
        have same : count = index := Int.ofNat_inj.mp here
        rw [same]
      · rename_i elsewhere
        have later : count ≠ index := fun same => elsewhere (by rw [same])
        exact ih (count + 1) (by omega) (by omega)

theorem served_ge (mapCount : Nat) (requests : List Int) (count index : Nat)
    (member : index ∈ served mapCount requests count) : count ≤ index := by
  induction requests generalizing count with
  | nil => cases member
  | cons request rest ih =>
      simp only [served] at member
      split at member
      · rename_i next sought
        have advanced := seekVma_next request (mapCount - count) count
        rw [sought] at advanced
        exact Nat.le_trans advanced (ih next member)
      · rename_i stop next sought
        obtain ⟨_same, above, _below, rfl⟩ := seekVma_found request _ count stop next sought
        rcases List.mem_cons.mp member with rfl | later
        · exact above
        · have beyond := ih (stop + 1) later
          omega

private theorem vmaFinderLoop_kept (gup : GetUserPages) (fuel : Nat) (cp : Params)
    (requests : List Int) (count : Nat) (mm mm' : Mm)
    (ran : vmaFinderLoop gup fuel cp requests count mm = some mm')
    (index : Nat) (vma : Vma) (found : mm.mmap[index]? = some vma)
    (unserved : index ∉ served mm.mmap.length requests count) :
    AreaKept mm mm' index vma := by
  induction requests generalizing count mm with
  | nil =>
      cases ran
      exact ⟨found, fun _address _inside => rfl⟩
  | cons request rest ih =>
      simp only [vmaFinderLoop] at ran
      simp only [served] at unserved
      split at ran
      · rename_i next sought
        rw [sought] at unserved
        exact ih next mm ran found unserved
      · rename_i stop next sought
        rw [sought] at unserved
        simp only [List.mem_cons, not_or] at unserved
        split at ran
        · cases ran
        · rename_i stopVma atStop
          split at ran
          · cases ran
          · rename_i changed walked
            have sameLength := changeArea_length gup fuel cp.shouldSkip cp.pageAddr mm changed
              stopVma walked
            have kept := changeArea_kept gup fuel cp.shouldSkip cp.pageAddr mm changed stop index
              stopVma vma atStop found unserved.1 walked
            exact AreaKept.trans mm changed mm' index vma kept
              (ih next changed ran kept.1 (by rw [sameLength]; exact unserved.2))

private theorem vmaFinderLoop_walked (gup : GetUserPages) (fuel : Nat) (cp : Params)
    (requests : List Int) (count : Nat) (mm mm' : Mm)
    (ran : vmaFinderLoop gup fuel cp requests count mm = some mm')
    (index : Nat) (vma : Vma) (found : mm.mmap[index]? = some vma)
    (isServed : index ∈ served mm.mmap.length requests count) :
    ∃ table, AreaWalked gup cp.shouldSkip cp.pageAddr mm mm' index vma table := by
  induction requests generalizing count mm with
  | nil => cases isServed
  | cons request rest ih =>
      simp only [vmaFinderLoop] at ran
      simp only [served] at isServed
      split at ran
      · rename_i next sought
        rw [sought] at isServed
        exact ih next mm ran found isServed
      · rename_i stop next sought
        rw [sought] at isServed
        obtain ⟨_same, _above, _below, rfl⟩ := seekVma_found request _ count stop next sought
        split at ran
        · cases ran
        · rename_i stopVma atStop
          split at ran
          · cases ran
          · rename_i changed walked
            have sameLength := changeArea_length gup fuel cp.shouldSkip cp.pageAddr mm changed
              stopVma walked
            rcases List.mem_cons.mp isServed with rfl | later
            · rw [found] at atStop
              cases atStop
              obtain ⟨table, walk⟩ := changeArea_walked gup fuel cp.shouldSkip cp.pageAddr mm changed
                index vma found walked
              have passed : index ∉ served changed.mmap.length rest (index + 1) := by
                intro again
                have beyond := served_ge _ rest (index + 1) index again
                omega
              have kept := vmaFinderLoop_kept gup fuel cp rest (index + 1) changed mm' ran index _
                walk.2.1 passed
              exact ⟨table, walk.of_kept_after gup cp.shouldSkip cp.pageAddr mm changed mm' index vma _
                table kept walk.2.1⟩
            · have beyond := served_ge _ rest (stop + 1) index later
              have kept := changeArea_kept gup fuel cp.shouldSkip cp.pageAddr mm changed stop index
                stopVma vma atStop found (by omega) walked
              obtain ⟨table, walk⟩ := ih (stop + 1) changed ran kept.1
                (by rw [sameLength]; exact later)
              exact ⟨table, walk.of_kept_before gup cp.shouldSkip cp.pageAddr mm changed mm' index vma
                table kept⟩

theorem vmaFinder_walked (gup : GetUserPages) (fuel : Nat) (cp : Params) (mm mm' : Mm)
    (ran : vmaFinder gup fuel cp mm = some mm') (index : Nat) (vma : Vma)
    (found : mm.mmap[index]? = some vma)
    (isServed : index ∈ served mm.mmap.length cp.vmaParam 0) :
    ∃ table, AreaWalked gup cp.shouldSkip cp.pageAddr mm mm' index vma table := by
  unfold vmaFinder at ran
  split at ran
  · cases ran
  · exact vmaFinderLoop_walked gup fuel cp cp.vmaParam 0 mm mm' ran index vma found isServed

theorem memprofileProcWrite_visited (gup : GetUserPages) (fuel : Nat) (headerCopied : Bool)
    (cp : Params) (before after : TaskList)
    (wrote : memprofileProcWrite gup fuel headerCopied cp before = some (0, after)) :
    visitTasks (visitTask gup fuel cp) before.tasks = some after.tasks := by
  simp only [memprofileProcWrite] at wrote
  split at wrote
  · cases wrote
  · obtain ⟨list, visited, same⟩ := Option.map_eq_some_iff.mp wrote
    cases same
    exact forEachProcess_tasks _ before after visited

end BlackboxProfiling.FunctimeKernelModule
