import BlackboxProfiling.Kernel.BothMultiple
import BlackboxProfiling.Kernel.UserCopy

/-!
One write to `/proc/memprofile` of `both_multiple.c` in steps, with pointers. The
request is copied into the global `cp`, whose list pointer first points to user space
and then to a buffer of the kernel; the page callback reads `cp` for every page.
-/

namespace BlackboxProfiling.BothMultiple

open BlockMemory

structure UserParams where
  size : Int
  buff : Nat
  shouldSkip : Bool
  pid : Nat

structure CpParams where
  size : Int
  buff : Ptr
  shouldSkip : Bool
  pid : Nat

/-- The record, the memory of the writing process and how the two copies go. -/
structure Request where
  header : UserParams
  user : Nat → Nat → Int
  headerCopy : Copy CpParams
  buffCopy : Copy (List Int)

def UserParams.copied (header : UserParams) : CpParams :=
  { size := header.size, buff := .foreign header.buff, shouldSkip := header.shouldSkip
    pid := header.pid }

/-- Where a write is. `visiting` is in `for_each_process`, `listing` has faulted the heap
area in, `walking` is between two calls of the page callback. -/
inductive WriteCode where
  | entered
  | headerCopied
  | buffAllocated (tempBuff : Ptr)
  | buffCopied
  | visiting (data : Ptr) (next : Nat)
  | listing (data : Ptr) (next : Nat) (vma : Vma)
  | walking (data : Ptr) (next : Nat) (vma : Vma) (pageAddr : Ptr) (rest : List Nat)
  | dataFreed
  | returned (ret : Int)

abbrev Module := Shared CpParams

def setMm (processes : List Task) (index : Nat) (mm : Mm) : List Task :=
  processes.modify index (fun task => { task with mm := some mm })

def currentProt (mm : Mm) (vma : Vma) : Pgprot :=
  match mm.mmap.find? (fun other => other.vmStart = vma.vmStart) with
  | some current => current.vmPageProt
  | none => vma.vmPageProt

def callbackStep (shouldSkip : Bool) (listed : List Nat) (vma : Vma) (address : Nat)
    (mm : Mm) : Mm :=
  let left := (modifyPage (skipPage shouldSkip listed) address (mm.pte, currentProt mm vma)).2
  mm.store vma.vmStart left.1 left.2

def visitStep (env : KernelEnv) (module : Module) (data : Ptr) (next : Nat) :
    Option (Module × WriteCode) :=
  match module.processes[next]? with
  | none => some ({ module with memory := release data module.memory }, .dataFreed)
  | some task =>
      if task.pid = module.cp.pid then
        match data, task.mm with
        | .block _number, some mm =>
            match findHeap mm with
            | none => some (module, .visiting data (next + 1))
            | some vma =>
                match mmPopulateMod env.gup env.fuel mm vma.vmStart (vma.vmEnd - vma.vmStart)
                    true with
                | none => none
                | some (_ret, table) =>
                    some ({ module with
                        processes := setMm module.processes next { mm with pte := table } },
                      .listing data next vma)
        | _, _ => none
      else some (module, .visiting data (next + 1))

def listStep (env : KernelEnv) (request : Request) (module : Module) (data : Ptr) (next : Nat)
    (vma : Vma) : Option (Module × WriteCode) :=
  let (ptr, memory) := alloc (env.found (byteCount module.cp.size)) module.memory
  let length := module.cp.size.toNat
  match readList request.user memory module.cp.buff length, readList request.user memory ptr length with
  | some pages, some _room =>
      let addresses : List Int := (listedAddrs pages vma).map Int.ofNat
      some ({ module with memory := fill ptr addresses (follow module.cp.buff length memory) },
        .walking data next vma ptr vma.pageAddrs)
  | _, _ => none

def walkStep (request : Request) (module : Module) (data : Ptr) (next : Nat) (vma : Vma)
    (pageAddr : Ptr) : List Nat → Option (Module × WriteCode)
  | [] =>
      some ({ module with memory := release pageAddr module.memory }, .visiting data (next + 1))
  | address :: rest =>
      match readList request.user module.memory pageAddr module.cp.size.toNat,
          module.processes[next]?.bind Task.mm with
      | some listed, some mm =>
          let left := callbackStep module.cp.shouldSkip (listed.map Int.toNat) vma address mm
          some ({ module with
              memory := follow pageAddr module.cp.size.toNat module.memory
              processes := setMm module.processes next left },
            .walking data next vma pageAddr rest)
      | _, _ => none

/-- The next step of a write, none when it faults or has returned. -/
def writeStep (env : KernelEnv) (request : Request) (module : Module) :
    WriteCode → Option (Module × WriteCode)
  | .entered =>
      match request.headerCopy with
      | .cut torn => some ({ module with cp := torn }, .returned (-efault))
      | .whole => some ({ module with cp := request.header.copied }, .headerCopied)
  | .headerCopied =>
      let tempBuff := module.cp.buff
      let (buff, memory) := alloc (env.found (byteCount module.cp.size)) module.memory
      some ({ module with cp := { module.cp with buff := buff }, memory := memory },
        .buffAllocated tempBuff)
  | .buffAllocated tempBuff =>
      match copyFromUser request.buffCopy request.user module.cp.buff tempBuff
          (byteCount module.cp.size / 4) module.memory with
      | none => none
      | some (false, memory) => some ({ module with memory := memory }, .returned (-efault))
      | some (true, memory) => some ({ module with memory := memory }, .buffCopied)
  | .buffCopied =>
      let (data, memory) := alloc (env.found dataBytes) module.memory
      some ({ module with memory := memory }, .visiting data 0)
  | .visiting data next => visitStep env module data next
  | .listing data next vma => listStep env request module data next vma
  | .walking data next vma pageAddr rest => walkStep request module data next vma pageAddr rest
  | .dataFreed => some ({ module with memory := release module.cp.buff module.memory }, .returned 0)
  | .returned _ret => none

def writeRun (env : KernelEnv) (request : Request) : Nat → Module → WriteCode → Module × WriteCode
  | 0, module, code => (module, code)
  | steps + 1, module, code =>
      match writeStep env request module code with
      | none => (module, code)
      | some (module, code) => writeRun env request steps module code

theorem writeRun_returned (env : KernelEnv) (request : Request) (steps : Nat) (module : Module)
    (ret : Int) : writeRun env request steps module (.returned ret) = (module, .returned ret) := by
  cases steps with
  | zero => rfl
  | succ steps => rfl

def finishWalk (shouldSkip : Bool) (listed : List Nat) (vma : Vma) : List Nat → Mm → Mm
  | [], mm => mm
  | address :: rest, mm =>
      finishWalk shouldSkip listed vma rest (callbackStep shouldSkip listed vma address mm)

private theorem modifyPage_zero (skip : Nat → Bool) (address : Nat) (state : PageTable × Pgprot) :
    modifyPage skip address state = (0, (modifyPage skip address state).2) := by
  unfold modifyPage
  split
  · rfl
  · rfl

private theorem find_setProtAt (start : Nat) (prot : Pgprot) (areas : List Vma) :
    (setProtAt start prot areas).find? (fun other => other.vmStart = start) =
      (areas.find? (fun other => other.vmStart = start)).map
        (fun current => current.setPageProt prot) := by
  induction areas with
  | nil => rfl
  | cons area rest ih =>
      unfold setProtAt at ih ⊢
      rw [List.map_cons, List.find?_cons, List.find?_cons, Vma.protAt_vmStart]
      by_cases here : area.vmStart = start
      · simp only [here, decide_true, if_true, Option.map_some]
      · simp only [here, decide_false]
        exact ih

private theorem currentProt_store (mm : Mm) (vma : Vma) (table : PageTable) (prot : Pgprot)
    (member : vma ∈ mm.mmap) : currentProt (mm.store vma.vmStart table prot) vma = prot := by
  unfold currentProt Mm.store
  dsimp only
  rw [find_setProtAt]
  cases found : mm.mmap.find? (fun other => other.vmStart = vma.vmStart) with
  | none =>
      have absent := List.find?_eq_none.mp found vma member
      exact absurd (decide_eq_true rfl) absent
  | some current => rfl

private theorem area_unique (mm : Mm) (left right : Vma) (leftMember : left ∈ mm.mmap)
    (rightMember : right ∈ mm.mmap) (same : left.vmStart = right.vmStart) : left = right := by
  by_contra different
  have separated := mm.areas_separated left right leftMember rightMember different
  have leftNonempty := left.nonempty
  have rightNonempty := right.nonempty
  omega

private theorem setProtAt_same (mm : Mm) (vma : Vma) (member : vma ∈ mm.mmap) :
    setProtAt vma.vmStart vma.vmPageProt mm.mmap = mm.mmap := by
  unfold setProtAt
  conv_rhs => rw [← List.map_id mm.mmap]
  apply List.map_congr_left
  intro other otherMember
  split
  · rename_i here
    rw [area_unique mm other vma otherMember member here]
    rfl
  · rfl

private theorem store_same (mm : Mm) (vma : Vma) (table : PageTable) (member : vma ∈ mm.mmap) :
    mm.store vma.vmStart table vma.vmPageProt = { mm with pte := table } := by
  simp only [Mm.store, setProtAt_same mm vma member]

private theorem setProtAt_setProtAt (start : Nat) (first second : Pgprot) (areas : List Vma) :
    setProtAt start second (setProtAt start first areas) = setProtAt start second areas := by
  unfold setProtAt
  rw [List.map_map]
  apply List.map_congr_left
  intro area _member
  dsimp only [Function.comp]
  rw [Vma.protAt_vmStart]
  split
  · rfl
  · rfl

private theorem store_store (mm : Mm) (start : Nat) (firstTable secondTable : PageTable)
    (first second : Pgprot) :
    (mm.store start firstTable first).store start secondTable second =
      mm.store start secondTable second := by
  simp only [Mm.store, setProtAt_setProtAt]

private theorem finishWalk_store (shouldSkip : Bool) (listed : List Nat) (mm : Mm) (vma : Vma)
    (member : vma ∈ mm.mmap) (rest : List Nat) (table : PageTable) (prot : Pgprot) :
    finishWalk shouldSkip listed vma rest (mm.store vma.vmStart table prot) =
      mm.store vma.vmStart
        (AddressWalk.walk (modifyPage (skipPage shouldSkip listed)) rest (table, prot)).2.1
        (AddressWalk.walk (modifyPage (skipPage shouldSkip listed)) rest (table, prot)).2.2 := by
  induction rest generalizing table prot with
  | nil => rfl
  | cons address rest ih =>
      have step : callbackStep shouldSkip listed vma address (mm.store vma.vmStart table prot) =
          mm.store vma.vmStart
            (modifyPage (skipPage shouldSkip listed) address (table, prot)).2.1
            (modifyPage (skipPage shouldSkip listed) address (table, prot)).2.2 := by
        simp only [callbackStep, Mm.store_pte, currentProt_store mm vma table prot member,
          store_store]
      rw [finishWalk, step, ih, AddressWalk.walk_cons_of_zero _ _ _ _ _ (modifyPage_zero _ _ _)]

/-- The steps of the walk together are the change of the heap area. -/
theorem changeHeap_finishWalk (env : KernelEnv) (cp : Params) (mm : Mm) (vma : Vma) (ret : Int)
    (table : PageTable) (member : vma ∈ mm.mmap)
    (populated : mmPopulateMod env.gup env.fuel mm vma.vmStart (vma.vmEnd - vma.vmStart) true =
      some (ret, table)) :
    changeHeap env.gup env.fuel cp mm vma =
      some (finishWalk cp.shouldSkip (listedAddrs cp.buff vma) vma vma.pageAddrs
        { mm with pte := table }) := by
  rw [← store_same mm vma table member, finishWalk_store _ _ mm vma member]
  simp only [changeHeap, changeArea, populated]
  rfl

end BlackboxProfiling.BothMultiple
