import BlackboxProfiling.Kernel.BothMultiple
import BlackboxProfiling.Kernel.RequestOrder
import BlackboxProfiling.Kernel.UserCopy

/-!
The element indices that a write uses on buffers whose sizes come from user space.
An allocation asks for a byte count that wraps; the loops over it compare with the
signed size.
-/

namespace BlackboxProfiling

open AddressWalk

inductive Buffer where
  | cpBuff
  | cpPageAddr
  | cpVmaParam
  | dataPageAddr
  deriving DecidableEq

def Buffer.elementBytes : Buffer → Nat
  | .cpVmaParam => 8
  | .cpBuff | .cpPageAddr | .dataPageAddr => 4

structure Access where
  buffer : Buffer
  index : Nat
  deriving DecidableEq

def Buffer.requested (buffer : Buffer) (size : BitVec 32) : Nat :=
  (size * BitVec.ofNat 32 buffer.elementBytes).toNat

def rounds (size : BitVec 32) : Nat := size.toInt.toNat

def entries (size : BitVec 32) (content : Nat → Int) : List Int :=
  (List.range (rounds size)).map content

private theorem entries_length (size : BitVec 32) (content : Nat → Int) :
    (entries size content).length = rounds size := by
  rw [entries, List.length_map, List.length_range]

theorem requested_eq_byteCount (buffer : Buffer) (words : buffer.elementBytes = 4)
    (size : BitVec 32) : buffer.requested size = byteCount size.toInt := by
  rw [Buffer.requested, words, byteCount, BitVec.toNat_mul, BitVec.toInt_eq_toNat_cond]
  simp only [BitVec.toNat_ofNat]
  split <;> omega

def searchAccesses (address : Nat) : List Nat → Nat → List Access
  | [], _index => []
  | listed :: rest, index =>
      ⟨.dataPageAddr, index⟩ ::
        (if address = listed then [] else searchAccesses address rest (index + 1))

/-- `changeArea` between its populate step and its end: the loop that fills
`data->page_addr`, then the search of every callback. -/
def areaAccesses (gup : GetUserPages) (fuel : Nat) (callback : PageCallback)
    (fillRound : Nat → List Access) (pages : List Int) (mm : Mm) (vma : Vma) : List Access :=
  match mmPopulateMod gup fuel mm vma.vmStart (vma.vmEnd - vma.vmStart) true with
  | none => []
  | some (_ret, table) =>
      (List.range pages.length).flatMap fillRound ++
        applyToPageRangeLog vma.vmStart (vma.vmEnd - vma.vmStart)
          (fun address _state => searchAccesses address (listedAddrs pages vma) 0)
          (callback (listedAddrs pages vma)) (table, vma.vmPageProt)

def visitAccesses (emit : Task → List Access) (body : Task → Option (Option Mm)) :
    List Task → List Access
  | [] => []
  | task :: rest =>
      emit task ++
        match body task with
        | none => []
        | some _left => visitAccesses emit body rest

/-! ### `both_multiple.c` -/

/-- The request once both copies have succeeded. The copy fills what was asked for;
what lies behind is given as well. -/
structure BothMultiple.CopiedParams where
  size : BitVec 32
  buff : Nat → Int
  shouldSkip : Bool
  pid : Nat

def BothMultiple.CopiedParams.params (cp : CopiedParams) : Params :=
  { buff := entries cp.size cp.buff, shouldSkip := cp.shouldSkip, pid := cp.pid }

/-- The new entry is printed after it is stored. -/
def BothMultiple.fillRound (index : Nat) : List Access :=
  [⟨.cpBuff, index⟩, ⟨.dataPageAddr, index⟩, ⟨.dataPageAddr, index⟩]

def BothMultiple.taskAccesses (gup : GetUserPages) (fuel : Nat) (cp : CopiedParams)
    (task : Task) : List Access :=
  if task.pid = cp.pid then
    match task.mm with
    | none => []
    | some mm =>
        match findHeap mm with
        | none => []
        | some vma =>
            areaAccesses gup fuel (printMem cp.params) fillRound cp.params.buff mm vma
  else []

/-- Before it looks for the process the module prints the first four entries. -/
def BothMultiple.writeAccesses (gup : GetUserPages) (fuel : Nat) (cp : CopiedParams)
    (processes : TaskList) : List Access :=
  [⟨.cpBuff, 0⟩, ⟨.cpBuff, 1⟩, ⟨.cpBuff, 2⟩, ⟨.cpBuff, 3⟩] ++
    visitAccesses (taskAccesses gup fuel cp) (visitTask gup fuel cp.params) processes.tasks

/-! ### `functime_kernel_module.c` -/

structure FunctimeKernelModule.CopiedParams where
  sizeVmaList : BitVec 32
  sizePageList : BitVec 32
  vmaIndex : Nat → Int
  pageAddr : Nat → Int
  shouldSkip : Bool
  pid : Nat

def FunctimeKernelModule.CopiedParams.params (cp : CopiedParams) : Params :=
  { vmaParam := entries cp.sizeVmaList cp.vmaIndex
    pageAddr := entries cp.sizePageList cp.pageAddr
    shouldSkip := cp.shouldSkip
    pid := cp.pid }

def FunctimeKernelModule.fillRound (index : Nat) : List Access :=
  [⟨.cpPageAddr, index⟩, ⟨.dataPageAddr, index⟩]

/-- The inner loop reads the request anew for every area it passes. -/
def FunctimeKernelModule.seekAccesses (i : Nat) (request : Int) : Nat → Nat → List Access
  | 0, _count => []
  | remaining + 1, count =>
      ⟨.cpVmaParam, i⟩ ::
        (if (count : Int) = request then [] else seekAccesses i request remaining (count + 1))

def FunctimeKernelModule.loopAccesses (gup : GetUserPages) (fuel : Nat) (cp : Params) :
    List Int → Nat → Nat → Mm → List Access
  | [], _i, _count, _mm => []
  | request :: rest, i, count, mm =>
      seekAccesses i request (mm.mmap.length - count) count ++
        match seekVma request (mm.mmap.length - count) count with
        | (none, next) => loopAccesses gup fuel cp rest (i + 1) next mm
        | (some index, next) =>
            match mm.mmap[index]? with
            | none => []
            | some vma =>
                areaAccesses gup fuel (cacheabilityModifier cp) fillRound cp.pageAddr mm vma ++
                  match changeArea gup fuel (cacheabilityModifier cp) cp.pageAddr mm vma with
                  | none => []
                  | some changed => loopAccesses gup fuel cp rest (i + 1) next changed

def FunctimeKernelModule.taskAccesses (gup : GetUserPages) (fuel : Nat) (cp : CopiedParams)
    (task : Task) : List Access :=
  if task.pid = cp.pid then
    match task.mm with
    | none => []
    | some mm =>
        if mm.mmap = [] then []
        else loopAccesses gup fuel cp.params cp.params.vmaParam 0 0 mm
  else []

def FunctimeKernelModule.writeAccesses (gup : GetUserPages) (fuel : Nat) (cp : CopiedParams)
    (processes : TaskList) : List Access :=
  visitAccesses (taskAccesses gup fuel cp) (visitTask gup fuel cp.params) processes.tasks

inductive UserRequest where
  | bothMultiple (cp : BothMultiple.CopiedParams)
  | functimeKernelModule (cp : FunctimeKernelModule.CopiedParams)

def UserRequest.size : UserRequest → Buffer → BitVec 32
  | .bothMultiple cp, _buffer => cp.size
  | .functimeKernelModule cp, .cpVmaParam => cp.sizeVmaList
  | .functimeKernelModule cp, .cpBuff | .functimeKernelModule cp, .cpPageAddr
  | .functimeKernelModule cp, .dataPageAddr => cp.sizePageList

def UserRequest.accesses (gup : GetUserPages) (fuel : Nat) (processes : TaskList) :
    UserRequest → List Access
  | .bothMultiple cp => BothMultiple.writeAccesses gup fuel cp processes
  | .functimeKernelModule cp => FunctimeKernelModule.writeAccesses gup fuel cp processes

/-- The element lies within the bytes that were asked for. -/
def Access.InBounds (request : UserRequest) (access : Access) : Prop :=
  (access.index + 1) * access.buffer.elementBytes ≤
    access.buffer.requested (request.size access.buffer)

private theorem inBounds_words (request : UserRequest) (access : Access)
    (words : access.buffer.elementBytes = 4) :
    access.InBounds request ↔
      access.index < (request.size access.buffer).toNat % 0x40000000 := by
  rw [Access.InBounds, Buffer.requested, words, BitVec.toNat_mul]
  simp only [BitVec.toNat_ofNat]
  omega

private theorem inBounds_vmaParam (request : UserRequest) (index : Nat) :
    Access.InBounds request ⟨.cpVmaParam, index⟩ ↔
      index < (request.size .cpVmaParam).toNat % 0x20000000 := by
  rw [Access.InBounds, Buffer.requested, BitVec.toNat_mul]
  simp only [Buffer.elementBytes, BitVec.toNat_ofNat]
  omega

/-- A loop stays below its allocation exactly when the byte count does not wrap. -/
theorem rounds_le_iff (size : BitVec 32) (elements : Nat) (positive : 0 < elements) :
    rounds size ≤ size.toNat % elements ↔ size.toInt < elements := by
  have bounded := size.isLt
  have wrapped := Nat.mod_lt size.toNat positive
  rw [rounds, BitVec.toInt_eq_toNat_cond]
  by_cases small : size.toNat < elements
  · rw [Nat.mod_eq_of_lt small]
    split <;> omega
  · split <;> omega

private theorem mem_searchAccesses (address : Nat) (listed : List Nat) (index : Nat) (access : Access)
    (member : access ∈ searchAccesses address listed index) :
    access.buffer = .dataPageAddr ∧ access.index < index + listed.length := by
  induction listed generalizing index with
  | nil => cases member
  | cons entry rest ih =>
      rw [List.length_cons]
      rcases List.mem_cons.mp member with rfl | later
      · exact ⟨rfl, by dsimp only; omega⟩
      · split at later
        · cases later
        · obtain ⟨buffer, below⟩ := ih (index + 1) later
          exact ⟨buffer, by omega⟩

section Area

variable (gup : GetUserPages) (fuel : Nat) (shouldSkip : Bool)
variable (fillRound : Nat → List Access) (pages : List Int) (mm : Mm) (vma : Vma)

private theorem mem_areaAccesses (access : Access)
    (member : access ∈ areaAccesses gup fuel
      (fun listed => modifyPage (skipPage shouldSkip listed)) fillRound pages mm vma) :
    (∃ index < pages.length, access ∈ fillRound index) ∨
      (access.buffer = .dataPageAddr ∧ access.index < pages.length) := by
  unfold areaAccesses at member
  split at member
  · cases member
  · rename_i ret table _populated
    rcases List.mem_append.mp member with filled | searched
    · obtain ⟨index, inRange, here⟩ := List.mem_flatMap.mp filled
      exact Or.inl ⟨index, List.mem_range.mp inRange, here⟩
    · right
      rw [applyToPageRangeLog_modifyPage _ _ _ _
        (fun address _pte _prot => searchAccesses address (listedAddrs pages vma) 0)
        (fun _address _table _prot => rfl)] at searched
      obtain ⟨address, _inside, here⟩ := List.mem_flatMap.mp searched
      obtain ⟨buffer, below⟩ := mem_searchAccesses address _ 0 access here
      rw [listedAddrs, List.length_map, Nat.zero_add] at below
      exact ⟨buffer, below⟩

private theorem areaAccesses_fills (progresses : gup.Progresses) (callback : PageCallback)
    (member : vma ∈ mm.mmap) (enough : vma.pageCount < fuel) (index : Nat) (inRange : index < pages.length)
    (access : Access) (filled : access ∈ fillRound index) :
    access ∈ areaAccesses gup fuel callback fillRound pages mm vma := by
  obtain ⟨ret, table, populated⟩ := mmPopulateMod_returns gup progresses mm vma member fuel enough
  rw [areaAccesses, populated]
  apply List.mem_append_left
  exact List.mem_flatMap.mpr ⟨index, List.mem_range.mpr inRange, filled⟩

end Area

theorem areaAccesses_inBounds_iff (request : UserRequest) (source : Buffer)
    (words : source.elementBytes = 4)
    (sameSize : request.size source = request.size .dataPageAddr)
    (fillRound : Nat → List Access)
    (fills : ∀ index access, access ∈ fillRound index ↔
      access = ⟨source, index⟩ ∨ access = ⟨.dataPageAddr, index⟩)
    (gup : GetUserPages) (progresses : gup.Progresses) (fuel : Nat) (shouldSkip : Bool)
    (content : Nat → Int) (mm : Mm) (vma : Vma) (member : vma ∈ mm.mmap)
    (enough : vma.pageCount < fuel) :
    (∀ access ∈ areaAccesses gup fuel (fun listed => modifyPage (skipPage shouldSkip listed))
        fillRound (entries (request.size source) content) mm vma, access.InBounds request) ↔
      (request.size source).toInt < 0x40000000 := by
  have fits := rounds_le_iff (request.size source) 0x40000000 (by decide)
  refine Iff.trans ?_ fits
  constructor
  · intro bounded
    by_contra wraps
    have reached := areaAccesses_fills gup fuel fillRound
      (entries (request.size source) content) mm vma progresses
      (fun listed => modifyPage (skipPage shouldSkip listed)) member enough
      ((request.size source).toNat % 0x40000000)
      (by rw [entries_length]; omega) ⟨source, (request.size source).toNat % 0x40000000⟩
      ((fills _ _).mpr (Or.inl rfl))
    have inside := (inBounds_words request _ words).mp (bounded _ reached)
    exact absurd inside (Nat.lt_irrefl _)
  · intro below access accessed
    have cases := mem_areaAccesses gup fuel shouldSkip fillRound
      (entries (request.size source) content) mm vma access accessed
    rw [entries_length] at cases
    rcases cases with ⟨index, inRange, filled⟩ | ⟨buffer, inRange⟩
    · rcases (fills index access).mp filled with rfl | rfl
      · exact (inBounds_words request _ words).mpr (Nat.lt_of_lt_of_le inRange below)
      · apply (inBounds_words request _ rfl).mpr
        dsimp only
        rw [← sameSize]
        exact Nat.lt_of_lt_of_le inRange below
    · have dataWords : access.buffer.elementBytes = 4 := by rw [buffer]; rfl
      apply (inBounds_words request access dataWords).mpr
      rw [buffer, ← sameSize]
      exact Nat.lt_of_lt_of_le inRange below

theorem mem_visitAccesses (pid : Nat) (emit : Task → List Access)
    (body : Task → Option (Option Mm)) (tasks : List Task)
    (distinct : (tasks.map Task.pid).Nodup)
    (others : ∀ task ∈ tasks, task.pid ≠ pid → emit task = [] ∧ ∃ mm, body task = some mm)
    (access : Access) :
    access ∈ visitAccesses emit body tasks ↔
      ∃ task ∈ tasks, task.pid = pid ∧ access ∈ emit task := by
  induction tasks with
  | nil => exact iff_of_false List.not_mem_nil (fun ⟨_task, absent, _rest⟩ => List.not_mem_nil absent)
  | cons head rest ih =>
      obtain ⟨fresh, restDistinct⟩ := List.nodup_cons.mp distinct
      have tail := ih restDistinct (fun task member => others task (List.mem_cons_of_mem head member))
      rw [visitAccesses, List.mem_append]
      by_cases named : head.pid = pid
      · have alone : ¬ access ∈ visitAccesses emit body rest := by
          rw [tail]
          rintro ⟨task, member, same, _accessed⟩
          apply fresh
          rw [named, ← same]
          exact List.mem_map_of_mem member
        constructor
        · rintro (here | later)
          · exact ⟨head, List.mem_cons_self, named, here⟩
          · split at later
            · cases later
            · exact absurd later alone
        · rintro ⟨task, member, same, accessed⟩
          rcases List.mem_cons.mp member with rfl | further
          · exact Or.inl accessed
          · exact absurd (tail.mpr ⟨task, further, same, accessed⟩) alone
      · obtain ⟨silent, mm, passes⟩ := others head List.mem_cons_self named
        rw [silent, passes]
        dsimp only
        rw [tail]
        constructor
        · rintro (impossible | ⟨task, member, same, accessed⟩)
          · cases impossible
          · exact ⟨task, List.mem_cons_of_mem head member, same, accessed⟩
        · rintro ⟨task, member, same, accessed⟩
          rcases List.mem_cons.mp member with rfl | further
          · exact absurd same named
          · exact Or.inr ⟨task, further, same, accessed⟩

def TaskList.PagesBelow (processes : TaskList) (fuel : Nat) : Prop :=
  ∀ task ∈ processes.tasks, ∀ mm, task.mm = some mm → ∀ area ∈ mm.mmap, area.pageCount < fuel

def TaskList.Target (processes : TaskList) (pid : Nat) (mm : Mm) : Prop :=
  ∃ task ∈ processes.tasks, task.pid = pid ∧ task.mm = some mm

namespace BothMultiple

private theorem header_inBounds_iff (cp : CopiedParams) :
    (∀ access ∈ [⟨.cpBuff, 0⟩, ⟨.cpBuff, 1⟩, ⟨.cpBuff, 2⟩, ⟨.cpBuff, 3⟩],
        Access.InBounds (.bothMultiple cp) access) ↔ 4 ≤ cp.size.toNat % 0x40000000 := by
  have element (index : Nat) := inBounds_words (.bothMultiple cp) ⟨.cpBuff, index⟩ rfl
  simp only [List.forall_mem_cons, List.not_mem_nil, false_imp_iff, implies_true, and_true, element,
    UserRequest.size]
  omega

private theorem heapAccesses_inBounds_iff (gup : GetUserPages) (progresses : gup.Progresses)
    (fuel : Nat) (cp : CopiedParams) (mm : Mm) (vma : Vma) (member : vma ∈ mm.mmap)
    (enough : vma.pageCount < fuel) :
    (∀ access ∈ areaAccesses gup fuel (printMem cp.params) fillRound cp.params.buff mm vma,
        access.InBounds (.bothMultiple cp)) ↔ cp.size.toInt < 0x40000000 := by
  apply areaAccesses_inBounds_iff (.bothMultiple cp) .cpBuff rfl rfl fillRound _ gup progresses
    fuel cp.shouldSkip cp.buff mm vma member enough
  intro index access
  simp only [fillRound, List.mem_cons, List.not_mem_nil, or_false, or_self]

def CopiedParams.Fits (cp : CopiedParams) (processes : TaskList) : Prop :=
  4 ≤ cp.size.toNat % 0x40000000 ∧
    (cp.size.toInt < 0x40000000 ∨
      ∀ mm, processes.Target cp.pid mm → ∀ vma ∈ mm.mmap, heapTest mm vma = false)

theorem writeAccesses_inBounds_iff (gup : GetUserPages) (progresses : gup.Progresses)
    (fuel : Nat) (cp : CopiedParams) (processes : TaskList) (enough : processes.PagesBelow fuel) :
    (∀ access ∈ writeAccesses gup fuel cp processes, access.InBounds (.bothMultiple cp)) ↔
      cp.Fits processes := by
  have visits := mem_visitAccesses cp.pid (taskAccesses gup fuel cp)
    (visitTask gup fuel cp.params) processes.tasks processes.distinct (by
      intro task _member other
      exact ⟨if_neg other, task.mm, if_neg other⟩)
  have area := heapAccesses_inBounds_iff gup progresses fuel cp
  rw [writeAccesses, List.forall_mem_append, header_inBounds_iff, CopiedParams.Fits]
  apply and_congr_right
  intro _printed
  constructor
  · intro bounded
    apply or_iff_not_imp_left.mpr
    rintro wraps mm ⟨task, member, named, atTask⟩ vma inside
    by_contra heap
    obtain ⟨first, chosen⟩ : ∃ first, findHeap mm = some first :=
      Option.isSome_iff_exists.mp
        (List.find?_isSome.mpr ⟨vma, inside, eq_true_of_ne_false heap⟩)
    have firstInside : first ∈ mm.mmap := List.mem_of_find?_eq_some chosen
    apply wraps
    apply (area mm first firstInside (enough task member mm atTask first firstInside)).mp
    intro access accessed
    apply bounded
    apply (visits access).mpr
    refine ⟨task, member, named, ?_⟩
    simp only [taskAccesses, named, if_true, atTask, chosen]
    exact accessed
  · intro either access accessed
    obtain ⟨task, member, named, here⟩ := (visits access).mp accessed
    simp only [taskAccesses, named, if_true] at here
    split at here
    · cases here
    · rename_i mm atTask
      split at here
      · cases here
      · rename_i vma chosen
        have inside : vma ∈ mm.mmap := List.mem_of_find?_eq_some chosen
        rcases either with small | none
        · exact (area mm vma inside (enough task member mm atTask vma inside)).mpr small access here
        · have heap := List.find?_some chosen
          rw [none mm ⟨task, member, named, atTask⟩ vma inside] at heap
          cases heap

end BothMultiple

namespace FunctimeKernelModule

private theorem seekVma_miss (request : Int) (remaining count : Nat)
    (outside : ¬ ((count : Int) ≤ request ∧ request < (count + remaining : Nat))) :
    seekVma request remaining count = (none, count + remaining) := by
  induction remaining generalizing count with
  | zero => rfl
  | succ remaining ih =>
      have elsewhere : (count : Int) ≠ request := by omega
      rw [seekVma, if_neg elsewhere, ih (count + 1) (by omega)]
      congr 1
      omega

def cursorAfter (mapCount : Nat) : List Int → Nat → Nat
  | [], count => count
  | request :: rest, count =>
      cursorAfter mapCount rest (seekVma request (mapCount - count) count).2

private theorem cursorAfter_ge (mapCount : Nat) (requests : List Int) (count : Nat) :
    count ≤ cursorAfter mapCount requests count := by
  induction requests generalizing count with
  | nil => exact Nat.le_refl count
  | cons request rest ih => exact Nat.le_trans (seekVma_next request _ count) (ih _)

/-- An area is left to look at exactly when all requests so far were served, the last
of them not at the last area. -/
theorem cursorAfter_lt_iff (mapCount : Nat) (requests : List Int) (count : Nat) :
    cursorAfter mapCount requests count < mapCount ↔
      count < mapCount ∧ requests.Pairwise (fun left right => left < right) ∧
        ∀ request ∈ requests, (count : Int) ≤ request ∧ request + 1 < mapCount := by
  induction requests generalizing count with
  | nil =>
      simp only [cursorAfter, List.Pairwise.nil, List.not_mem_nil, false_imp_iff, implies_true,
        and_true]
  | cons request rest ih =>
      rw [cursorAfter, List.pairwise_cons, List.forall_mem_cons]
      by_cases inRange : (count : Int) ≤ request ∧ request < mapCount
      · obtain ⟨index, rfl⟩ : ∃ index : Nat, request = index := ⟨request.toNat, by omega⟩
        rw [seekVma_hit index (mapCount - count) count (by omega) (by omega), ih]
        constructor
        · rintro ⟨before, increasing, each⟩
          refine ⟨by omega, ⟨?_, increasing⟩, by omega, ?_⟩
          · intro later member
            have above := (each later member).1
            omega
          · intro later member
            have bounds := each later member
            omega
        · rintro ⟨_left, ⟨first, increasing⟩, here, each⟩
          refine ⟨by omega, increasing, ?_⟩
          intro later member
          have above := first later member
          have bounds := each later member
          omega
      · rw [seekVma_miss request (mapCount - count) count (by omega)]
        have reached := cursorAfter_ge mapCount rest (count + (mapCount - count))
        dsimp only
        constructor
        · intro before
          omega
        · rintro ⟨before, _increasing, here, _each⟩
          omega

private theorem cursorAfter_sublist (mapCount : Nat) (fewer requests : List Int) (count : Nat)
    (part : fewer.Sublist requests) (left : cursorAfter mapCount requests count < mapCount) :
    cursorAfter mapCount fewer count < mapCount := by
  rw [cursorAfter_lt_iff] at left ⊢
  obtain ⟨before, increasing, each⟩ := left
  exact ⟨before, increasing.sublist part, fun request member => each request (part.subset member)⟩

private theorem served_past (mapCount : Nat) (requests : List Int) (count : Nat)
    (past : mapCount ≤ count) : served mapCount requests count = [] := by
  induction requests with
  | nil => rfl
  | cons request rest ih =>
      rw [served, Nat.sub_eq_zero_of_le past]
      exact ih

theorem served_eq_nil_iff (mapCount : Nat) (requests : List Int) (count : Nat) :
    served mapCount requests count = [] ↔
      ∀ first ∈ requests.head?, ¬ ((count : Int) ≤ first ∧ first < mapCount) := by
  cases requests with
  | nil => exact iff_of_true rfl (fun _first absent => by cases absent)
  | cons request rest =>
      simp only [List.head?_cons, Option.mem_some_iff, forall_eq']
      by_cases inRange : (count : Int) ≤ request ∧ request < mapCount
      · obtain ⟨index, rfl⟩ : ∃ index : Nat, request = index := ⟨request.toNat, by omega⟩
        simp only [served, seekVma_hit index (mapCount - count) count (by omega) (by omega)]
        exact iff_of_false (List.cons_ne_nil _ _) (not_not_intro inRange)
      · simp only [served, seekVma_miss request (mapCount - count) count (by omega)]
        exact iff_of_true (served_past mapCount rest _ (by omega)) inRange

/-! ### Accesses of `vma_finder` -/

private theorem forall_mem_seekAccesses (holds : Access → Prop) (i : Nat) (request : Int)
    (remaining count : Nat) :
    (∀ access ∈ seekAccesses i request remaining count, holds access) ↔
      (0 < remaining → holds ⟨.cpVmaParam, i⟩) := by
  induction remaining generalizing count with
  | zero => exact iff_of_true (fun _access absent => by cases absent) (fun none => by cases none)
  | succ remaining ih =>
      rw [seekAccesses, List.forall_mem_cons]
      constructor
      · rintro ⟨here, _later⟩ _some
        exact here
      · intro reads
        have here := reads (Nat.succ_pos remaining)
        refine ⟨here, ?_⟩
        split
        · intro access absent
          cases absent
        · exact (ih (count + 1)).mpr (fun _some => here)

private theorem vmaAccesses_inBounds_iff (gup : GetUserPages) (progresses : gup.Progresses)
    (fuel : Nat) (cp : CopiedParams) (mm : Mm) (vma : Vma) (member : vma ∈ mm.mmap)
    (enough : vma.pageCount < fuel) :
    (∀ access ∈ areaAccesses gup fuel (cacheabilityModifier cp.params) fillRound
        cp.params.pageAddr mm vma, access.InBounds (.functimeKernelModule cp)) ↔
      cp.sizePageList.toInt < 0x40000000 := by
  apply areaAccesses_inBounds_iff (.functimeKernelModule cp) .cpPageAddr rfl rfl fillRound _ gup
    progresses fuel cp.shouldSkip cp.pageAddr mm vma member enough
  intro index access
  simp only [fillRound, List.mem_cons, List.not_mem_nil, or_false]

/-- The list of pages stays in bounds for every area that is worked on; the list of
requests does so for every request that is looked at. -/
theorem loopAccesses_inBounds_iff (gup : GetUserPages) (progresses : gup.Progresses)
    (fuel : Nat) (cp : CopiedParams) (requests : List Int) (i count : Nat) (mm : Mm)
    (enough : ∀ area ∈ mm.mmap, area.pageCount < fuel) :
    (∀ access ∈ loopAccesses gup fuel cp.params requests i count mm,
        access.InBounds (.functimeKernelModule cp)) ↔
      (∀ k < requests.length,
        cursorAfter mm.mmap.length (requests.take k) count < mm.mmap.length →
          i + k < cp.sizeVmaList.toNat % 0x20000000) ∧
      (served mm.mmap.length requests count = [] ∨ cp.sizePageList.toInt < 0x40000000) := by
  induction requests generalizing i count mm with
  | nil =>
      refine iff_of_true (fun _access absent => by cases absent) ⟨?_, Or.inl rfl⟩
      intro k impossible
      cases impossible
  | cons request rest ih =>
      have reads : (∀ access ∈ seekAccesses i request (mm.mmap.length - count) count,
          access.InBounds (.functimeKernelModule cp)) ↔
            (count < mm.mmap.length → i < cp.sizeVmaList.toNat % 0x20000000) := by
        rw [forall_mem_seekAccesses, inBounds_vmaParam, Nat.sub_pos_iff_lt]
        rfl
      have later (next : Nat) : (∀ k < rest.length,
          cursorAfter mm.mmap.length (rest.take k) next < mm.mmap.length →
            i + 1 + k < cp.sizeVmaList.toNat % 0x20000000) ↔
          ∀ k < rest.length, cursorAfter mm.mmap.length (rest.take k) next < mm.mmap.length →
            i + (k + 1) < cp.sizeVmaList.toNat % 0x20000000 := by
        simp only [Nat.add_assoc, Nat.add_comm 1]
      rw [loopAccesses, List.forall_mem_append, reads, List.length_cons, Nat.forall_lt_succ_left]
      simp only [List.take_zero, List.take_succ_cons, cursorAfter, served, Nat.add_zero, and_assoc]
      apply and_congr_right
      intro _first
      cases sought : seekVma request (mm.mmap.length - count) count with
      | mk stop next =>
          cases stop with
          | none =>
              dsimp only
              rw [ih (i + 1) next mm enough, later]
          | some index =>
              obtain ⟨_same, above, below, _next⟩ := seekVma_found request _ count index next sought
              have inside : index < mm.mmap.length := by omega
              have member : mm.mmap[index] ∈ mm.mmap := List.getElem_mem inside
              obtain ⟨table, walked⟩ :=
                changeArea_served gup progresses fuel cp.params mm enough index inside
              have area := vmaAccesses_inBounds_iff gup progresses fuel cp mm mm.mmap[index] member
                (enough _ member)
              have tail := ih (i + 1) next _ (changedMm_pageCounts cp.params.shouldSkip
                cp.params.pageAddr mm mm.mmap[index] table fuel enough)
              rw [changedMm_length, later] at tail
              have some : index :: served mm.mmap.length rest next ≠ [] := List.cons_ne_nil _ _
              simp only [List.getElem?_eq_getElem inside, walked, List.forall_mem_append, area,
                tail, some, false_or]
              constructor
              · rintro ⟨small, each, _others⟩
                exact ⟨each, small⟩
              · rintro ⟨each, small⟩
                exact ⟨small, each, Or.inr small⟩

def CopiedParams.Reaches (cp : CopiedParams) (mapCount number : Nat) : Prop :=
  0 < mapCount ∧ ((List.range number).map cp.vmaIndex).Pairwise (fun left right => left < right) ∧
    ∀ i < number, 0 ≤ cp.vmaIndex i ∧ cp.vmaIndex i + 1 < mapCount

def CopiedParams.Serves (cp : CopiedParams) (mapCount : Nat) : Prop :=
  0 < cp.sizeVmaList.toInt ∧ 0 ≤ cp.vmaIndex 0 ∧ cp.vmaIndex 0 < mapCount

def CopiedParams.Fits (cp : CopiedParams) (processes : TaskList) : Prop :=
  ∀ mm, processes.Target cp.pid mm →
    (cp.sizeVmaList.toInt < 0x20000000 ∨
      ¬ cp.Reaches mm.mmap.length (cp.sizeVmaList.toNat % 0x20000000)) ∧
    (cp.sizePageList.toInt < 0x40000000 ∨ ¬ cp.Serves mm.mmap.length)

private theorem CopiedParams.reaches_iff (cp : CopiedParams) (mapCount number : Nat)
    (within : number ≤ rounds cp.sizeVmaList) :
    cp.Reaches mapCount number ↔
      cursorAfter mapCount (cp.params.vmaParam.take number) 0 < mapCount := by
  have first : cp.params.vmaParam.take number = (List.range number).map cp.vmaIndex := by
    rw [params, entries, ← List.map_take, List.take_range, Nat.min_eq_left within]
  rw [first, cursorAfter_lt_iff, Reaches]
  simp only [List.forall_mem_map, List.mem_range]
  rfl

private theorem CopiedParams.serves_iff (cp : CopiedParams) (mapCount : Nat) :
    cp.Serves mapCount ↔ served mapCount cp.params.vmaParam 0 ≠ [] := by
  rw [ne_eq, served_eq_nil_iff, Serves, params, entries]
  cases some : rounds cp.sizeVmaList with
  | zero =>
      have none : ¬ 0 < cp.sizeVmaList.toInt := by
        rw [rounds] at some
        omega
      refine iff_of_false (fun both => none both.1) (not_not_intro ?_)
      intro first absent
      cases absent
  | succ more =>
      have positive : 0 < cp.sizeVmaList.toInt := by
        rw [rounds] at some
        omega
      rw [List.range_succ_eq_map, List.map_cons, List.head?_cons]
      simp only [Option.mem_some_iff, forall_eq', not_not, positive, true_and]
      rfl

private theorem vmaParam_inBounds_iff (cp : CopiedParams) (mapCount : Nat) :
    (∀ k < cp.params.vmaParam.length,
      cursorAfter mapCount (cp.params.vmaParam.take k) 0 < mapCount →
        0 + k < cp.sizeVmaList.toNat % 0x20000000) ↔
      cp.sizeVmaList.toInt < 0x20000000 ∨
        ¬ cp.Reaches mapCount (cp.sizeVmaList.toNat % 0x20000000) := by
  have length : cp.params.vmaParam.length = rounds cp.sizeVmaList := entries_length _ _
  have fits := rounds_le_iff cp.sizeVmaList 0x20000000 (by decide)
  rw [length]
  constructor
  · intro bounded
    apply or_iff_not_imp_left.mpr
    intro wraps reached
    have past : cp.sizeVmaList.toNat % 0x20000000 < rounds cp.sizeVmaList := by
      by_contra below
      exact wraps (fits.mp (Nat.not_lt.mp below))
    have inside := bounded _ past ((cp.reaches_iff mapCount _ (Nat.le_of_lt past)).mp reached)
    omega
  · intro either k inRange left
    rw [Nat.zero_add]
    by_contra outside
    have past : cp.sizeVmaList.toNat % 0x20000000 ≤ k := Nat.not_lt.mp outside
    rcases either with small | unreached
    · have below := fits.mpr small
      omega
    · apply unreached
      apply (cp.reaches_iff mapCount _ (by omega)).mpr
      apply cursorAfter_sublist mapCount _ _ 0 _ left
      rw [← Nat.min_eq_left past, ← List.take_take]
      exact List.take_sublist _ _

theorem writeAccesses_inBounds_iff (gup : GetUserPages) (progresses : gup.Progresses)
    (fuel : Nat) (cp : CopiedParams) (processes : TaskList) (enough : processes.PagesBelow fuel) :
    (∀ access ∈ writeAccesses gup fuel cp processes,
        access.InBounds (.functimeKernelModule cp)) ↔ cp.Fits processes := by
  have visits := mem_visitAccesses cp.pid (taskAccesses gup fuel cp)
    (visitTask gup fuel cp.params) processes.tasks processes.distinct (by
      intro task _member other
      exact ⟨if_neg other, task.mm, if_neg other⟩)
  have target (task : Task) (member : task ∈ processes.tasks) (named : task.pid = cp.pid) (mm : Mm)
      (atTask : task.mm = some mm) :
      (∀ access ∈ taskAccesses gup fuel cp task, access.InBounds (.functimeKernelModule cp)) ↔
        (cp.sizeVmaList.toInt < 0x20000000 ∨
          ¬ cp.Reaches mm.mmap.length (cp.sizeVmaList.toNat % 0x20000000)) ∧
        (cp.sizePageList.toInt < 0x40000000 ∨ ¬ cp.Serves mm.mmap.length) := by
    have loop := loopAccesses_inBounds_iff gup progresses fuel cp cp.params.vmaParam 0 0 mm
      (enough task member mm atTask)
    rw [vmaParam_inBounds_iff, or_comm (b := cp.sizePageList.toInt < 0x40000000)] at loop
    rw [taskAccesses, if_pos named, atTask, cp.serves_iff, not_not]
    dsimp only
    split
    · rename_i empty
      refine iff_of_true (fun _access absent => by cases absent) ⟨Or.inr ?_, Or.inr ?_⟩
      · rintro ⟨positive, _increasing, _each⟩
        rw [empty] at positive
        cases positive
      · rw [empty]
        exact served_past 0 _ 0 (Nat.le_refl 0)
    · exact loop
  constructor
  · rintro bounded mm ⟨task, member, named, atTask⟩
    apply (target task member named mm atTask).mp
    intro access accessed
    exact bounded access ((visits access).mpr ⟨task, member, named, accessed⟩)
  · intro fits access accessed
    obtain ⟨task, member, named, here⟩ := (visits access).mp accessed
    cases atTask : task.mm with
    | none =>
        rw [taskAccesses, if_pos named, atTask] at here
        cases here
    | some mm =>
        exact (target task member named mm atTask).mpr
          (fits mm ⟨task, member, named, atTask⟩) access here

end FunctimeKernelModule

def UserRequest.Fits (processes : TaskList) : UserRequest → Prop
  | .bothMultiple cp => cp.Fits processes
  | .functimeKernelModule cp => cp.Fits processes

/-- Every index lies within the requested bytes exactly when no byte count that is used
wraps and, for `both_multiple.c`, the four printed entries exist. -/
theorem UserRequest.inBounds_iff (request : UserRequest) (gup : GetUserPages)
    (progresses : gup.Progresses) (fuel : Nat) (processes : TaskList)
    (enough : processes.PagesBelow fuel) :
    (∀ access ∈ request.accesses gup fuel processes, access.InBounds request) ↔
      request.Fits processes := by
  cases request with
  | bothMultiple cp =>
      exact BothMultiple.writeAccesses_inBounds_iff gup progresses fuel cp processes enough
  | functimeKernelModule cp =>
      exact FunctimeKernelModule.writeAccesses_inBounds_iff gup progresses fuel cp processes enough

private theorem sampleProcesses_pagesBelow : sampleProcesses.PagesBelow 8 := by
  intro task member mm atTask area inside
  rw [List.mem_singleton.mp member] at atTask
  cases atTask
  rw [List.mem_singleton.mp inside]
  decide

theorem UserRequest.inBounds_iff_sample :
    ⟨.cpBuff, 3⟩ ∈ UserRequest.accesses (.faultIn id) 8 sampleProcesses
        (.bothMultiple ⟨4, fun _index => 2, true, 7⟩) ∧
      ∀ access ∈ UserRequest.accesses (.faultIn id) 8 sampleProcesses
          (.bothMultiple ⟨4, fun _index => 2, true, 7⟩),
        access.InBounds (.bothMultiple ⟨4, fun _index => 2, true, 7⟩) :=
  ⟨List.mem_append_left _ (by decide),
    (UserRequest.inBounds_iff (.bothMultiple ⟨4, fun _index => 2, true, 7⟩) (.faultIn id)
      (GetUserPages.faultIn_progresses id) 8 sampleProcesses sampleProcesses_pagesBelow).mpr
      ⟨by decide, Or.inl (by decide)⟩⟩

/-- A list of one entry, and a list of pages whose byte count wraps to zero. -/
theorem UserRequest.inBounds_fails :
    (¬ ∀ access ∈ UserRequest.accesses (.faultIn id) 8 sampleProcesses
        (.bothMultiple ⟨1, fun _index => 2, true, 7⟩),
      access.InBounds (.bothMultiple ⟨1, fun _index => 2, true, 7⟩)) ∧
    ¬ ∀ access ∈ UserRequest.accesses (.faultIn id) 8 sampleProcesses
        (.functimeKernelModule ⟨1, 0x40000000, fun _i => 0, fun _index => 2, true, 7⟩),
      access.InBounds
        (.functimeKernelModule ⟨1, 0x40000000, fun _i => 0, fun _index => 2, true, 7⟩) := by
  constructor
  · intro bounded
    have printed := bounded ⟨.cpBuff, 1⟩ (List.mem_append_left _ (by decide))
    revert printed
    unfold Access.InBounds
    decide
  · intro bounded
    have fits := (FunctimeKernelModule.writeAccesses_inBounds_iff (.faultIn id)
      (GetUserPages.faultIn_progresses id) 8
      ⟨1, 0x40000000, fun _i => 0, fun _index => 2, true, 7⟩ sampleProcesses
      sampleProcesses_pagesBelow).mp bounded
    obtain ⟨_requests, wraps | unserved⟩ :=
      fits sampleMm ⟨sampleTask, List.mem_cons_self, rfl, rfl⟩
    · exact absurd wraps (by decide)
    · exact unserved ⟨by decide, Int.le_refl 0, by decide⟩

end BlackboxProfiling
