import BlackboxProfiling.EventRun
import BlackboxProfiling.Kernel.BothMultiple
import BlackboxProfiling.Kernel.FunctimeKernelModule

/-!
Page faults and heap growth after a write. A fault installs an entry built from
`vm_page_prot` of its area, and the page callback has made that protection
noncacheable as soon as it changed one page of the area.
-/

namespace BlackboxProfiling.LaterFaults

open EventRun

structure Area where
  vma : Vma
  pte : PageTable

inductive LaterEvent where
  | fault (address frame : Nat) (write : Bool)
  | grow (newEnd : Nat)
  deriving DecidableEq, Repr

/-- A fault is served when it hits a page of the area that has no entry yet. -/
def Area.Faults (area : Area) (address : Nat) : Prop :=
  address ∈ area.vma.pageAddrs ∧ (area.pte address).present = false

instance (area : Area) (address : Nat) : Decidable (area.Faults address) :=
  inferInstanceAs (Decidable (_ ∧ _))

def faultPage (area : Area) (address frame : Nat) (write : Bool) : Area :=
  if area.Faults address then
    let prot : Pgprot := { area.vma.vmPageProt with present := true, young := true, dirty := write }
    { area with pte := Function.update area.pte address (pfnPte frame prot) }
  else area

def growTo (area : Area) (newEnd : Nat) : Area :=
  if valid : area.vma.vmEnd ≤ newEnd ∧ newEnd < 0x100000000 ∧ newEnd % pageSize = 0 then
    { vma :=
        { area.vma with
          vmEnd := newEnd
          nonempty := Nat.lt_of_lt_of_le area.vma.nonempty valid.1
          bounded := valid.2.1
          endAligned := valid.2.2 }
      pte := fun address =>
        if area.vma.vmEnd ≤ address ∧ address < newEnd then
          { area.pte address with prot := { (area.pte address).prot with present := false } }
        else area.pte address }
  else area

def laterStep (area : Area) : LaterEvent → Area
  | .fault address frame write => faultPage area address frame write
  | .grow newEnd => growTo area newEnd

/-- Among the pages of the area that have an entry, the noncacheable ones are
those at a listed address. -/
def Selected (listed : List Nat) (area : Area) : Prop :=
  ∀ address ∈ area.vma.pageAddrs, (area.pte address).present = true →
    ((area.pte address).cacheable = false ↔ address ∈ listed)

/-- A fault fits when the page it installs is listed exactly if the area has
turned noncacheable; growing the area installs nothing. -/
def StepFits (listed : List Nat) (noncached : Prop) (area : Area) : LaterEvent → Prop
  | .fault address _frame _write => area.Faults address → (noncached ↔ address ∈ listed)
  | .grow _newEnd => True

private theorem laterStep_prot (area : Area) (event : LaterEvent) :
    (laterStep area event).vma.vmPageProt = area.vma.vmPageProt := by
  cases event with
  | fault address frame write =>
      simp only [laterStep, faultPage]
      split <;> rfl
  | grow newEnd =>
      simp only [laterStep, growTo]
      split <;> rfl

private theorem faultPage_selected_iff (listed : List Nat) (area : Area) (address frame : Nat)
    (write : Bool) (selected : Selected listed area) :
    Selected listed (faultPage area address frame write) ↔
      (area.Faults address →
        (area.vma.vmPageProt.memType.cacheable = false ↔ address ∈ listed)) := by
  by_cases faults : area.Faults address
  · rw [faultPage, if_pos faults, imp_iff_right faults]
    constructor
    · intro after
      have here := after address faults.1
      simp only [Function.update_self] at here
      exact here rfl
    · intro fit other inside present
      by_cases same : other = address
      · subst other
        simp only [Function.update_self] at present ⊢
        exact fit
      · simp only [Function.update_of_ne same] at present ⊢
        exact selected other inside present
  · rw [faultPage, if_neg faults]
    exact iff_of_true selected (fun served => absurd served faults)

private theorem growTo_selected (listed : List Nat) (area : Area) (newEnd : Nat)
    (selected : Selected listed area) : Selected listed (growTo area newEnd) := by
  unfold growTo
  split
  · rename_i valid
    intro address inside present
    by_cases added : area.vma.vmEnd ≤ address ∧ address < newEnd
    · simp only [if_pos added] at present
      cases present
    · simp only [if_neg added] at present ⊢
      rw [Vma.mem_pageAddrs_iff] at inside
      apply selected address _ present
      rw [Vma.mem_pageAddrs_iff]
      simp only at inside
      omega
  · exact selected

private theorem growTo_faults (area : Area) (newEnd address : Nat)
    (valid : area.vma.vmEnd ≤ newEnd ∧ newEnd < 0x100000000 ∧ newEnd % pageSize = 0)
    (added : area.vma.vmEnd ≤ address ∧ address < newEnd) (aligned : address % pageSize = 0) :
    (growTo area newEnd).Faults address := by
  have nonempty := area.vma.nonempty
  rw [growTo, dif_pos valid]
  constructor
  · rw [Vma.mem_pageAddrs_iff]
    have low : area.vma.vmStart ≤ address := by omega
    exact ⟨low, added.2, aligned⟩
  · simp only [if_pos added]
    rfl

private theorem laterStep_selected_iff (listed : List Nat) (noncached : Prop) (area : Area)
    (event : LaterEvent)
    (protection : area.vma.vmPageProt.memType.cacheable = false ↔ noncached)
    (selected : Selected listed area) :
    Selected listed (laterStep area event) ↔ StepFits listed noncached area event := by
  cases event with
  | fault address frame write =>
      rw [laterStep, faultPage_selected_iff listed area address frame write selected, protection,
        StepFits]
  | grow newEnd =>
      simp only [laterStep, StepFits, iff_true]
      exact growTo_selected listed area newEnd selected

def walkedArea (pages : List Int) (mm' : Mm) (vma : Vma) : Area :=
  { vma := vma.setPageProt
      (modifiedProt (skipPage true (listedAddrs pages vma)) vma.pageAddrs vma.vmPageProt)
    pte := mm'.pte }

private theorem modifiedProt_noncached_iff (listed : List Nat) (vma : Vma) :
    (modifiedProt (skipPage true listed) vma.pageAddrs vma.vmPageProt).memType.cacheable = false ↔
      vma.vmPageProt.memType.cacheable = false ∨ ∃ address ∈ vma.pageAddrs, address ∈ listed := by
  have chosen : (vma.pageAddrs.any (fun address => !skipPage true listed address)) = true ↔
      ∃ address ∈ vma.pageAddrs, address ∈ listed := by
    simp only [List.any_eq_true, Bool.not_eq_true', skipPage_eq_false_iff, iff_true]
  unfold modifiedProt
  by_cases some : ∃ address ∈ vma.pageAddrs, address ∈ listed
  · rw [if_pos (chosen.mpr some)]
    exact iff_of_true rfl (Or.inr some)
  · rw [if_neg (fun any => some (chosen.mp any))]
    exact (or_iff_left some).symm

private theorem walkedArea_unlisted (gup : GetUserPages) (pages : List Int) (mm mm' : Mm)
    (index : Nat) (vma : Vma)
    (table : PageTable) (walk : AreaWalked gup true pages mm mm' index vma table)
    (address : Nat) (inside : address ∈ vma.pageAddrs)
    (absent : address ∉ listedAddrs pages vma) : mm'.pte address = table address := by
  rw [walk.2.2 address inside]
  apply modifiedTable_skipped
  by_contra chosen
  rw [Bool.not_eq_true, skipPage_eq_false_iff] at chosen
  exact absent (chosen.mpr rfl)

private theorem walkedArea_selected_iff (gup : GetUserPages) (pages : List Int) (mm mm' : Mm)
    (index : Nat) (vma : Vma)
    (table : PageTable) (walk : AreaWalked gup true pages mm mm' index vma table) :
    Selected (listedAddrs pages vma) (walkedArea pages mm' vma) ↔
      ∀ address ∈ vma.pageAddrs, address ∉ listedAddrs pages vma →
        (table address).present = true → (table address).cacheable = true := by
  have unlisted := walkedArea_unlisted gup pages mm mm' index vma table walk
  have listed (address : Nat) (inside : address ∈ vma.pageAddrs)
      (member : address ∈ listedAddrs pages vma) : (mm'.pte address).cacheable = false := by
    rw [walk.2.2 address inside, modifiedTable_chosen _ _ _ _ _ inside
      ((skipPage_eq_false_iff true _ address).mpr (iff_of_true member rfl)),
      pfnPte_noncached_cacheable]
  constructor
  · intro selected address inside absent present
    have here := selected address inside
    simp only [walkedArea, unlisted address inside absent] at here
    have cacheable := mt (here present).mp absent
    rwa [Bool.not_eq_false] at cacheable
  · intro cacheable address inside present
    by_cases member : address ∈ listedAddrs pages vma
    · exact iff_of_true (listed address inside member) member
    · simp only [walkedArea, unlisted address inside member] at present ⊢
      apply iff_of_false _ member
      rw [cacheable address inside member present]
      exact Bool.noConfusion

private theorem walkedArea_always_iff (gup : GetUserPages) (pages : List Int) (mm mm' : Mm)
    (index : Nat) (vma : Vma)
    (table : PageTable) (walk : AreaWalked gup true pages mm mm' index vma table)
    (events : List LaterEvent) :
    Always laterStep (Selected (listedAddrs pages vma)) (walkedArea pages mm' vma) events ↔
      (∀ address ∈ vma.pageAddrs, address ∉ listedAddrs pages vma →
        (table address).present = true → (table address).cacheable = true) ∧
      EachStep laterStep
        (StepFits (listedAddrs pages vma)
          (vma.vmPageProt.memType.cacheable = false ∨
            ∃ address ∈ vma.pageAddrs, address ∈ listedAddrs pages vma))
        (walkedArea pages mm' vma) events := by
  rw [always_iff_eachStep laterStep (Selected (listedAddrs pages vma))
    (fun area => area.vma.vmPageProt.memType.cacheable = false ↔
      (vma.vmPageProt.memType.cacheable = false ∨
        ∃ address ∈ vma.pageAddrs, address ∈ listedAddrs pages vma)),
    walkedArea_selected_iff gup pages mm mm' index vma table walk]
  · intro area event protection
    rw [laterStep_prot]
    exact protection
  · intro area event protection selected
    exact laterStep_selected_iff _ _ area event protection selected
  · exact modifiedProt_noncached_iff (listedAddrs pages vma) vma

inductive Request where
  | bothMultiple (cp : BothMultiple.Params)
  | functimeModule (cp : FunctimeKernelModule.Params)

def Request.pid : Request → Nat
  | .bothMultiple cp => cp.pid
  | .functimeModule cp => cp.pid

def Request.shouldSkip : Request → Bool
  | .bothMultiple cp => cp.shouldSkip
  | .functimeModule cp => cp.shouldSkip

def Request.pages : Request → List Int
  | .bothMultiple cp => cp.buff
  | .functimeModule cp => cp.pageAddr

def Request.write (gup : GetUserPages) (fuel : Nat) :
    Request → TaskList → Option (Int × TaskList)
  | .bothMultiple cp, processes =>
      BothMultiple.memprofileProcWrite gup fuel ⟨true, true⟩ cp processes
  | .functimeModule cp, processes =>
      FunctimeKernelModule.memprofileProcWrite gup fuel true cp processes

def Request.Affects (mm : Mm) (index : Nat) : Request → Prop
  | .bothMultiple _cp => BothMultiple.findHeap mm = mm.mmap[index]?
  | .functimeModule cp =>
      index ∈ FunctimeKernelModule.served mm.mmap.length cp.vmaParam 0

private theorem Request.write_walked (gup : GetUserPages) (fuel : Nat) (request : Request)
    (before after : TaskList) (target : Task) (mm : Mm) (index : Nat) (vma : Vma)
    (member : target ∈ before.tasks) (named : target.pid = request.pid)
    (atTarget : target.mm = some mm) (found : mm.mmap[index]? = some vma)
    (affected : request.Affects mm index)
    (wrote : request.write gup fuel before = some (0, after)) :
    ∃ mm' table, { target with mm := some mm' } ∈ after.tasks ∧
      AreaWalked gup request.shouldSkip request.pages mm mm' index vma table := by
  cases request with
  | bothMultiple cp =>
      have visited := BothMultiple.memprofileProcWrite_visited gup fuel _ cp before after wrote
      obtain ⟨left, atVisit, present⟩ := visitTasks_member _ _ _ visited target member
      have chosen : BothMultiple.findHeap mm = some vma := affected.trans found
      have isTarget : target.pid = cp.pid := named
      simp only [BothMultiple.visitTask, if_pos isTarget, atTarget, chosen] at atVisit
      obtain ⟨mm', ran, rfl⟩ := Option.map_eq_some_iff.mp atVisit
      obtain ⟨table, walk⟩ :=
        changeArea_walked gup fuel cp.shouldSkip cp.buff mm mm' index vma found ran
      exact ⟨mm', table, present, walk⟩
  | functimeModule cp =>
      have visited :=
        FunctimeKernelModule.memprofileProcWrite_visited gup fuel _ cp before after wrote
      obtain ⟨left, atVisit, present⟩ := visitTasks_member _ _ _ visited target member
      have isTarget : target.pid = cp.pid := named
      simp only [FunctimeKernelModule.visitTask, if_pos isTarget, atTarget] at atVisit
      obtain ⟨mm', ran, rfl⟩ := Option.map_eq_some_iff.mp atVisit
      obtain ⟨table, walk⟩ :=
        FunctimeKernelModule.vmaFinder_walked gup fuel cp mm mm' ran index vma found affected
      exact ⟨mm', table, present, walk⟩

/-- After a write with `shouldSkip` set, the selection holds through a run of
faults and growth exactly when every unlisted page was cacheable as the walk met
it and each page installed later is listed exactly if the area's protection was
noncacheable before or the write listed one of the area's pages. -/
theorem selection_persists_iff (gup : GetUserPages) (fuel : Nat) (request : Request)
    (before after : TaskList) (target : Task) (mm : Mm) (index : Nat) (vma : Vma)
    (flag : request.shouldSkip = true)
    (member : target ∈ before.tasks) (named : target.pid = request.pid)
    (atTarget : target.mm = some mm) (found : mm.mmap[index]? = some vma)
    (affected : request.Affects mm index)
    (wrote : request.write gup fuel before = some (0, after)) :
    ∃ (mm' : Mm) (area : Area) (table : PageTable),
      { target with mm := some mm' } ∈ after.tasks ∧
      mm'.mmap[index]? = some area.vma ∧ area.pte = mm'.pte ∧
      (∀ address ∈ vma.pageAddrs,
        (mm.pte address).present = true → gup.Keeps vma (mm.pte address) (table address)) ∧
      (∀ address ∈ vma.pageAddrs, address ∉ listedAddrs request.pages vma →
        mm'.pte address = table address) ∧
      ∀ events,
        Always laterStep (Selected (listedAddrs request.pages vma)) area events ↔
          (∀ address ∈ vma.pageAddrs, address ∉ listedAddrs request.pages vma →
            (table address).present = true → (table address).cacheable = true) ∧
          EachStep laterStep
            (StepFits (listedAddrs request.pages vma)
              (vma.vmPageProt.memType.cacheable = false ∨
                ∃ address ∈ vma.pageAddrs, address ∈ listedAddrs request.pages vma))
            area events := by
  obtain ⟨mm', table, present, walk⟩ := request.write_walked gup fuel before after target mm index
    vma member named atTarget found affected wrote
  rw [flag] at walk
  refine ⟨mm', walkedArea request.pages mm' vma, table, present, walk.2.1, rfl, walk.1, ?_, ?_⟩
  · exact walkedArea_unlisted gup request.pages mm mm' index vma table walk
  · exact walkedArea_always_iff gup request.pages mm mm' index vma table walk

/-- The fault installs page 4, which is on the list. -/
theorem selection_persists_iff_sample :
    ∃ (after : TaskList) (mm' : Mm) (area : Area),
      Request.write (.faultIn id) 8 (.bothMultiple ⟨[2, 4], true, 7⟩) sampleProcesses =
        some (0, after) ∧
      { sampleTask with mm := some mm' } ∈ after.tasks ∧
      mm'.mmap[0]? = some area.vma ∧ area.pte = mm'.pte ∧
      Always laterStep (Selected (listedAddrs [2, 4] sampleHeap)) area
        [.grow 0x14000, .fault 0x13000 77 true] := by
  obtain ⟨after, wrote⟩ : ∃ after, Request.write (.faultIn id) 8
      (.bothMultiple ⟨[2, 4], true, 7⟩) sampleProcesses = some (0, after) := ⟨_, rfl⟩
  obtain ⟨mm', area, table, present, atIndex, entries, unchanged, _unlisted, persists⟩ :=
    selection_persists_iff (.faultIn id) 8 (.bothMultiple ⟨[2, 4], true, 7⟩) sampleProcesses after
      sampleTask sampleMm 0 sampleHeap rfl List.mem_cons_self rfl rfl rfl rfl wrote
  refine ⟨after, mm', area, wrote, present, atIndex, entries, (persists _).mpr ⟨?_, ?_⟩⟩
  · intro address inside _unlisted _present
    rw [(unchanged address inside rfl).same rfl]
    rfl
  · have some : ∃ address ∈ sampleHeap.pageAddrs, address ∈ listedAddrs [2, 4] sampleHeap :=
      ⟨0x11000, by decide, by decide⟩
    exact ⟨trivial, fun _faults => iff_of_true (Or.inr some) (by decide), trivial⟩

def sampleRequest : Request := .bothMultiple ⟨[2], true, 7⟩

theorem selection_lost_after_growth :
    ∃ (after : TaskList) (mm' : Mm) (area : Area),
      sampleRequest.write (.faultIn id) 8 sampleProcesses = some (0, after) ∧
      { sampleTask with mm := some mm' } ∈ after.tasks ∧
      mm'.mmap[0]? = some area.vma ∧ area.pte = mm'.pte ∧
      ¬ Always laterStep (Selected (listedAddrs [2] sampleHeap)) area
        [.grow 0x14000, .fault 0x13000 77 true] := by
  obtain ⟨after, wrote⟩ : ∃ after,
      sampleRequest.write (.faultIn id) 8 sampleProcesses = some (0, after) := ⟨_, rfl⟩
  obtain ⟨mm', table, present, walk⟩ :=
    sampleRequest.write_walked (.faultIn id) 8 sampleProcesses after sampleTask sampleMm 0 sampleHeap
      List.mem_cons_self rfl rfl rfl rfl wrote
  refine ⟨after, mm', walkedArea [2] mm' sampleHeap, wrote, present, walk.2.1, rfl, ?_⟩
  rintro ⟨_first, grown, last⟩
  have heapEnd : (walkedArea [2] mm' sampleHeap).vma.vmEnd = 0x13000 := rfl
  have faults : (growTo (walkedArea [2] mm' sampleHeap) 0x14000).Faults 0x13000 :=
    growTo_faults _ 0x14000 0x13000 (by rw [heapEnd]; decide) (by rw [heapEnd]; decide) (by decide)
  have noncached : (growTo (walkedArea [2] mm' sampleHeap) 0x14000).vma.vmPageProt.memType.cacheable =
      false := rfl
  have exact := (faultPage_selected_iff _ _ 0x13000 77 true grown).mp last faults
  exact absurd (exact.mp noncached) (by decide)

end BlackboxProfiling.LaterFaults
