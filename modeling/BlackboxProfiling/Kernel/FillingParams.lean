import BlackboxProfiling.Kernel.FunctimeKernelModule
import BlackboxProfiling.Kernel.UserCopy

/-!
`filling_params` and the rest of a write of `functime_kernel_module.c` with pointers.
The three arrays of `cp` are replaced one after the other by copies; `filling_params`
stops at the first copy that fails and its caller goes on with what `cp` then holds.
-/

namespace BlackboxProfiling.FunctimeKernelModule.Pointers

open BlockMemory

/-- `struct params` in user space; the arrays are given by their addresses. -/
structure UserParams where
  size : Nat
  vmaParam : Nat
  pageAddr : Nat
  shouldSkip : Bool
  pid : Nat

structure CpParams where
  size : Ptr
  vmaParam : Ptr
  pageAddr : Ptr
  shouldSkip : Bool
  pid : Nat

abbrev Module := Shared CpParams

structure Request where
  header : UserParams
  user : Nat → Nat → Int
  headerCopy : Copy CpParams
  sizesCopy : Copy (List Int)
  pagesCopy : Copy (List Int)
  vmasCopy : Copy (List Int)

def vmaList : Nat := 0

def pageList : Nat := 1

def UserParams.copied (header : UserParams) : CpParams :=
  { size := .foreign header.size, vmaParam := .foreign header.vmaParam
    pageAddr := .foreign header.pageAddr, shouldSkip := header.shouldSkip, pid := header.pid }

def fillArray (env : KernelEnv) (request : Request) (copy : Copy (List Int)) (bytes : Nat)
    (src : Ptr) (memory : Memory) : Option (Ptr × Bool × Memory) :=
  let (dst, memory) := alloc (env.found bytes) memory
  (copyFromUser copy request.user dst src (bytes / 4) memory).map
    (fun (copied, memory) => (dst, copied, memory))

/-- The array of the areas; two numbers an entry. -/
def fillVmas (env : KernelEnv) (request : Request) (cp : CpParams) (memory : Memory) :
    Option (CpParams × Memory) :=
  match readAt request.user memory cp.size vmaList with
  | none => none
  | some vmas =>
      (fillArray env request request.vmasCopy (byteCount (vmas * 2)) cp.vmaParam
        (follow cp.size 1 memory)).map
        (fun (vmaParam, _copied, memory) => ({ cp with vmaParam := vmaParam }, memory))

def fillPages (env : KernelEnv) (request : Request) (cp : CpParams) (memory : Memory) :
    Option (CpParams × Memory) :=
  match readAt request.user memory cp.size pageList with
  | none => none
  | some pages =>
      match fillArray env request request.pagesCopy (byteCount pages) cp.pageAddr
          (follow cp.size 1 memory) with
      | none => none
      | some (pageAddr, false, memory) => some ({ cp with pageAddr := pageAddr }, memory)
      | some (pageAddr, true, memory) =>
          fillVmas env request { cp with pageAddr := pageAddr } memory

/-- The caller is not told where it stopped. -/
def fillingParams (env : KernelEnv) (request : Request) (cp : CpParams) (memory : Memory) :
    Option (CpParams × Memory) :=
  match fillArray env request request.sizesCopy (byteCount 2) cp.size memory with
  | none => none
  | some (size, false, memory) => some ({ cp with size := size }, memory)
  | some (size, true, memory) => fillPages env request { cp with size := size } memory

def CpParams.paged (cp : CpParams) (pageAddr : List Int) : Params :=
  { vmaParam := [], pageAddr := pageAddr, shouldSkip := cp.shouldSkip, pid := cp.pid }

def changePages (env : KernelEnv) (request : Request) (cp : CpParams) (vma : Vma) (mm : Mm)
    (memory : Memory) : Option (Mm × Memory) :=
  match readAt request.user memory cp.size pageList with
  | none => none
  | some pages =>
      let (ptr, memory) := alloc (env.found (byteCount pages)) (follow cp.size 1 memory)
      match readList request.user memory cp.pageAddr pages.toNat,
          readList request.user memory ptr pages.toNat with
      | some numbers, some _room =>
          match changeArea env.gup env.fuel (cacheabilityModifier (cp.paged numbers)) numbers mm
              vma with
          | none => none
          | some changed =>
              let addresses : List Int := (listedAddrs numbers vma).map Int.ofNat
              let memory := fill ptr addresses (follow cp.pageAddr pages.toNat memory)
              some (changed, release ptr (follow ptr pages.toNat memory))
      | _, _ => none

def vmaFinderLoop (env : KernelEnv) (request : Request) (cp : CpParams) :
    Nat → Nat → Nat → Mm → Memory → Option (Mm × Memory)
  | 0, _i, _count, mm, memory => some (mm, memory)
  | remaining + 1, i, count, mm, memory =>
      if mm.mmap.length ≤ count then
        vmaFinderLoop env request cp remaining (i + 1) count mm memory
      else
        match readAt request.user memory cp.vmaParam (2 * i) with
        | none => none
        | some index =>
            match seekVma index (mm.mmap.length - count) count with
            | (none, next) =>
                vmaFinderLoop env request cp remaining (i + 1) next mm (follow cp.vmaParam 1 memory)
            | (some stop, next) =>
                match mm.mmap[stop]? with
                | none => none
                | some vma =>
                    match changePages env request cp vma mm (follow cp.vmaParam 1 memory) with
                    | none => none
                    | some (changed, memory) =>
                        vmaFinderLoop env request cp remaining (i + 1) next changed memory

def vmaFinder (env : KernelEnv) (request : Request) (cp : CpParams) (mm : Mm) (memory : Memory) :
    Option (Mm × Memory) :=
  if mm.mmap = [] then none
  else
    match readAt request.user memory cp.size vmaList with
    | none => none
    | some vmas => vmaFinderLoop env request cp vmas.toNat 0 0 mm (follow cp.size 1 memory)

def visitTask (env : KernelEnv) (request : Request) (cp : CpParams) (data : Ptr) (task : Task)
    (memory : Memory) : Option (Option Mm × Memory) :=
  if task.pid = cp.pid then
    match data, task.mm with
    | .block _number, some mm =>
        (vmaFinder env request cp mm memory).map (fun (mm, memory) => (some mm, memory))
    | _, _ => none
  else some (task.mm, memory)

def visitEach (env : KernelEnv) (request : Request) (cp : CpParams) (data : Ptr) :
    List Task → Memory → Option (List Task × Memory)
  | [], memory => some ([], memory)
  | task :: rest, memory =>
      match visitTask env request cp data task memory with
      | none => none
      | some (mm, memory) =>
          (visitEach env request cp data rest memory).map
            (fun (tasks, memory) => ({ task with mm := mm } :: tasks, memory))

def getVma (env : KernelEnv) (request : Request) (cp : CpParams) (processes : List Task)
    (memory : Memory) : Option (List Task × Memory) :=
  let (data, memory) := alloc (env.found dataBytes) memory
  (visitEach env request cp data processes memory).map
    (fun (tasks, memory) => (tasks, release data memory))

def memprofileProcWrite (env : KernelEnv) (request : Request) (module : Module) :
    Option (Int × Module) :=
  match request.headerCopy with
  | .cut torn => some (-efault, { module with cp := torn })
  | .whole =>
      match fillingParams env request request.header.copied module.memory with
      | none => none
      | some (cp, memory) =>
          (getVma env request cp module.processes memory).map (fun (tasks, memory) =>
            (0, { cp := cp
                  memory := release cp.size (release cp.vmaParam (release cp.pageAddr memory))
                  processes := tasks }))

/-! ### Writes in which no copy fails -/

def Request.pages (request : Request) : Int := request.user request.header.size pageList

def Request.vmas (request : Request) : Int := request.user request.header.size vmaList

/-- A copy is made when the copies before it have succeeded, which takes a buffer. -/
def Request.CopyFails (env : KernelEnv) (request : Request) : Prop :=
  request.headerCopy.Fails ∨ request.sizesCopy.Fails ∨
    (env.found (byteCount 2) = true ∧
      ((request.pagesCopy.Fails ∧ byteCount request.pages ≠ 0) ∨
        ((byteCount request.pages = 0 ∨ env.found (byteCount request.pages) = true) ∧
          request.vmasCopy.Fails ∧ byteCount (request.vmas * 2) ≠ 0)))

def Holds (request : Request) (memory : Memory) (ptr : Ptr) (address length : Nat) : Prop :=
  readList request.user memory ptr length =
    some ((List.range length).map (request.user address))

theorem Holds.entry (request : Request) (memory : Memory) (ptr : Ptr) (address length place : Nat)
    (holds : Holds request memory ptr address length) (inside : place < length) :
    readAt request.user memory ptr place = some (request.user address place) := by
  rw [readAt_readList _ _ _ _ _ _ holds inside, List.getElem?_map, List.getElem?_range inside]
  rfl

theorem Holds.kept (request : Request) (before after : Memory) (ptr : Ptr) (address length : Nat)
    (holds : Holds request before ptr address length)
    (same : readList request.user after ptr length = readList request.user before ptr length) :
    Holds request after ptr address length := same.trans holds

section Copied

variable (env : KernelEnv) (request : Request)

structure ArrayFilled (request : Request) (bytes address : Nat) (live : List Ptr)
    (before : Memory) (dst : Ptr) (after : Memory) : Prop where
  own : dst.Own
  balanced : Balanced after (dst :: live)
  holds : Holds request after dst address (bytes / 4)
  same : ∀ ptr ∈ live, ∀ length,
    readList request.user after ptr length = readList request.user before ptr length

private theorem fillArray_filled (copy : Copy (List Int)) (bytes address : Nat) (live : List Ptr)
    (before after : Memory) (dst : Ptr) (copied : Bool) (balanced : Balanced before live)
    (sound : copy.Fails → bytes / 4 = 0)
    (ran : fillArray env request copy bytes (.foreign address) before = some (dst, copied, after)) :
    copied = true ∧ (bytes / 4 = 0 ∨ env.found bytes = true) ∧
      ArrayFilled request bytes address live before dst after := by
  unfold fillArray at ran
  dsimp only at ran
  obtain ⟨⟨wasCopied, memory⟩, copying, same⟩ := Option.map_eq_some_iff.mp ran
  cases same
  have own := alloc_own (env.found bytes) before
  have allocated := alloc_balanced (env.found bytes) before live balanced
  have succeeded := copyFromUser_succeeds copy request.user _ _ _ _ _ address copying sound
  subst succeeded
  refine ⟨rfl, ?_, own, copyFromUser_balanced _ _ _ _ _ _ _ _ _ copying allocated,
    copyFromUser_copied _ _ _ _ _ _ _ own copying, ?_⟩
  · rcases copyFromUser_room _ _ _ _ _ _ _ _ copying with empty | room
    · exact Or.inl empty
    · right
      cases found : env.found bytes with
      | true => rfl
      | false =>
          rw [found] at room
          exact absurd rfl room
  · intro ptr member length
    rw [copyFromUser_apart _ _ _ _ _ _ _ _ live copying allocated ptr member, readList_alloc]

def CpParams.arrays (cp : CpParams) : List Ptr := [cp.vmaParam, cp.pageAddr, cp.size]

private theorem CpParams.vmaParam_mem (cp : CpParams) : cp.vmaParam ∈ cp.arrays := List.mem_cons_self

theorem CpParams.pageAddr_mem (cp : CpParams) : cp.pageAddr ∈ cp.arrays :=
  List.mem_cons_of_mem _ List.mem_cons_self

private theorem CpParams.size_mem (cp : CpParams) : cp.size ∈ cp.arrays :=
  List.mem_cons_of_mem _ (List.mem_cons_of_mem _ (List.mem_singleton_self _))

structure Filled (request : Request) (cp : CpParams) (memory : Memory) : Prop where
  own : ∀ ptr ∈ cp.arrays, ptr.Own
  sizes : Holds request memory cp.size request.header.size 2
  pages : Holds request memory cp.pageAddr request.header.pageAddr (byteCount request.pages / 4)
  vmas : Holds request memory cp.vmaParam request.header.vmaParam
    (byteCount (request.vmas * 2) / 4)
  shouldSkip : cp.shouldSkip = request.header.shouldSkip
  pid : cp.pid = request.header.pid

private theorem fillVmas_filled (cp after : CpParams) (memory left : Memory) (sizeOwn : cp.size.Own)
    (pageOwn : cp.pageAddr.Own) (balanced : Balanced memory [cp.pageAddr, cp.size])
    (sizes : Holds request memory cp.size request.header.size 2)
    (pages : Holds request memory cp.pageAddr request.header.pageAddr (byteCount request.pages / 4))
    (rest : request.header.copied = { cp with
      size := .foreign request.header.size, pageAddr := .foreign request.header.pageAddr })
    (sound : request.vmasCopy.Fails → byteCount (request.vmas * 2) / 4 = 0)
    (ran : fillVmas env request cp memory = some (after, left)) :
    Filled request after left ∧ Balanced left after.arrays := by
  simp only [UserParams.copied, CpParams.mk.injEq] at rest
  obtain ⟨_size, vmaParam, _pageAddr, shouldSkip, pid⟩ := rest
  have count : readAt request.user memory cp.size vmaList = some request.vmas :=
    sizes.entry request memory _ _ _ _ Nat.two_pos
  simp only [fillVmas, count, ← vmaParam] at ran
  obtain ⟨⟨dst, copied, last⟩, filling, same⟩ := Option.map_eq_some_iff.mp ran
  cases same
  obtain ⟨_copied, _room, filled⟩ := fillArray_filled env request _ _ _ [cp.pageAddr, cp.size]
    _ _ _ _ (follow_balanced _ _ _ _ sizeOwn balanced) sound filling
  have kept (ptr : Ptr) (member : ptr ∈ [cp.pageAddr, cp.size]) (length : Nat) :
      readList request.user last ptr length = readList request.user memory ptr length :=
    (filled.same ptr member length).trans (readList_follow _ _ _ _ _ _)
  refine ⟨⟨?_, ?_, ?_, filled.holds, shouldSkip.symm, pid.symm⟩, filled.balanced⟩
  · intro ptr member
    rcases List.mem_cons.mp member with rfl | member
    · exact filled.own
    · rcases List.mem_cons.mp member with rfl | member
      · exact pageOwn
      · rw [List.mem_singleton.mp member]
        exact sizeOwn
  · exact sizes.kept request _ _ _ _ _ (kept _ (List.mem_cons_of_mem _ (List.mem_singleton_self _)) _)
  · exact pages.kept request _ _ _ _ _ (kept _ List.mem_cons_self _)

private theorem fillPages_filled (cp after : CpParams) (memory left : Memory) (sizeOwn : cp.size.Own)
    (balanced : Balanced memory [cp.size])
    (sizes : Holds request memory cp.size request.header.size 2)
    (rest : request.header.copied = { cp with size := .foreign request.header.size })
    (pagesSound : request.pagesCopy.Fails → byteCount request.pages / 4 = 0)
    (vmasSound : byteCount request.pages / 4 = 0 ∨ env.found (byteCount request.pages) = true →
      request.vmasCopy.Fails → byteCount (request.vmas * 2) / 4 = 0)
    (ran : fillPages env request cp memory = some (after, left)) :
    Filled request after left ∧ Balanced left after.arrays := by
  have pageAddr : cp.pageAddr = .foreign request.header.pageAddr :=
    (congrArg CpParams.pageAddr rest).symm
  have count : readAt request.user memory cp.size pageList = some request.pages :=
    sizes.entry request memory _ _ _ _ Nat.one_lt_two
  simp only [fillPages, count, pageAddr] at ran
  split at ran
  · cases ran
  · rename_i dst last filling
    obtain ⟨impossible, _room, _filled⟩ := fillArray_filled env request _ _ _ [cp.size]
      _ _ _ _ (follow_balanced _ _ _ _ sizeOwn balanced) pagesSound filling
    cases impossible
  · rename_i dst last filling
    obtain ⟨_copied, room, filled⟩ := fillArray_filled env request _ _ _ [cp.size]
      _ _ _ _ (follow_balanced _ _ _ _ sizeOwn balanced) pagesSound filling
    have kept := (filled.same cp.size (List.mem_singleton_self _) 2).trans
      (readList_follow request.user memory cp.size cp.size 1 2)
    have restAfter : request.header.copied = { cp with
        size := .foreign request.header.size, pageAddr := .foreign request.header.pageAddr } := by
      rw [rest, ← pageAddr]
    exact fillVmas_filled env request { cp with pageAddr := dst } after last left sizeOwn filled.own
      filled.balanced (sizes.kept request _ _ _ _ _ kept) filled.holds restAfter (vmasSound room) ran

theorem fillingParams_filled (cp : CpParams) (memory after : Memory)
    (sound : ¬ request.CopyFails env) (balanced : Balanced memory [])
    (ran : fillingParams env request request.header.copied memory = some (cp, after)) :
    Filled request cp after ∧ Balanced after cp.arrays := by
  have sizesSound : request.sizesCopy.Fails → byteCount 2 / 4 = 0 :=
    fun fails => absurd (Or.inr (Or.inl fails)) sound
  unfold fillingParams at ran
  split at ran
  · cases ran
  · rename_i dst last filling
    obtain ⟨impossible, _room, _filled⟩ := fillArray_filled env request _ _ _ [] _ _ _ _ balanced
      sizesSound filling
    cases impossible
  · rename_i dst last filling
    obtain ⟨_copied, room, filled⟩ := fillArray_filled env request _ _ _ [] _ _ _ _ balanced
      sizesSound filling
    have found : env.found (byteCount 2) = true := by
      rcases room with impossible | found
      · cases impossible
      · exact found
    refine fillPages_filled env request _ cp last after filled.own filled.balanced filled.holds rfl
      ?_ ?_ ran
    · intro fails
      by_contra nonempty
      have some_ : byteCount request.pages ≠ 0 :=
        fun none_ => nonempty ((byteCount_entries _).mpr none_)
      exact sound (Or.inr (Or.inr ⟨found, Or.inl ⟨fails, some_⟩⟩))
    · intro pagesRoom fails
      by_contra nonempty
      have some_ : byteCount (request.vmas * 2) ≠ 0 :=
        fun none_ => nonempty ((byteCount_entries _).mpr none_)
      have pagesRoom : byteCount request.pages = 0 ∨ env.found (byteCount request.pages) = true :=
        pagesRoom.imp_left (byteCount_entries _).mp
      exact sound (Or.inr (Or.inr ⟨found, Or.inr ⟨pagesRoom, fails, some_⟩⟩))

structure Request.Counted (request : Request) : Prop where
  pagesNonneg : 0 ≤ request.pages
  pagesFit : request.pages < 0x40000000
  vmasNonneg : 0 ≤ request.vmas
  vmasFit : request.vmas < 0x20000000

def Request.vmaIndex (request : Request) (i : Nat) : Int :=
  request.user request.header.vmaParam (2 * i)

def Request.params (request : Request) : Params :=
  { vmaParam := (List.range request.vmas.toNat).map request.vmaIndex
    pageAddr := (List.range request.pages.toNat).map (request.user request.header.pageAddr)
    shouldSkip := request.header.shouldSkip
    pid := request.header.pid }

private theorem Request.params_vmaParam_length (request : Request) :
    request.params.vmaParam.length = request.vmas.toNat := by
  rw [Request.params, List.length_map, List.length_range]

private theorem Request.params_vmaParam_drop (request : Request) (i : Nat)
    (inside : i < request.vmas.toNat) :
    request.params.vmaParam.drop i =
      request.vmaIndex i :: request.params.vmaParam.drop (i + 1) := by
  rw [← request.params_vmaParam_length] at inside
  rw [List.drop_eq_getElem_cons inside]
  congr 1
  simp only [Request.params, List.getElem_map, List.getElem_range]

theorem Filled.list (cp : CpParams) (memory : Memory) (counted : request.Counted)
    (filled : Filled request cp memory) :
    readList request.user memory cp.pageAddr request.pages.toNat =
      some request.params.pageAddr := by
  have entries : byteCount request.pages / 4 = request.pages.toNat := by
    have fits := counted.pagesFit
    have nonneg := counted.pagesNonneg
    unfold byteCount
    omega
  have held := filled.pages
  rw [Holds, entries] at held
  exact held

theorem Filled.index (cp : CpParams) (memory : Memory) (counted : request.Counted)
    (filled : Filled request cp memory) (i : Nat) (inside : i < request.vmas.toNat) :
    readAt request.user memory cp.vmaParam (2 * i) = some (request.vmaIndex i) := by
  apply filled.vmas.entry
  have fits := counted.vmasFit
  have nonneg := counted.vmasNonneg
  unfold byteCount
  omega

theorem Filled.keeps (cp : CpParams) (before after : Memory) (data : Ptr)
    (filled : Filled request cp before)
    (keeps : Keeps request.user (data :: cp.arrays) before after) : Filled request cp after := by
  have same (ptr : Ptr) (member : ptr ∈ cp.arrays) (length : Nat) :=
    keeps.same ptr (List.mem_cons_of_mem data member) length
  exact ⟨filled.own, filled.sizes.kept request _ _ _ _ _ (same _ cp.size_mem _),
    filled.pages.kept request _ _ _ _ _ (same _ cp.pageAddr_mem _),
    filled.vmas.kept request _ _ _ _ _ (same _ cp.vmaParam_mem _), filled.shouldSkip, filled.pid⟩

theorem changePages_refines (cp : CpParams) (vma : Vma) (mm changed : Mm) (memory after : Memory)
    (data : Ptr) (counted : request.Counted) (filled : Filled request cp memory)
    (balanced : Balanced memory (data :: cp.arrays))
    (ran : changePages env request cp vma mm memory = some (changed, after)) :
    changeArea env.gup env.fuel (cacheabilityModifier request.params) request.params.pageAddr mm
        vma = some changed ∧
      Keeps request.user (data :: cp.arrays) memory after := by
  have count : readAt request.user memory cp.size pageList = some request.pages :=
    filled.sizes.entry request memory _ _ _ _ Nat.one_lt_two
  have start : Keeps request.user (data :: cp.arrays) memory memory := Keeps.refl balanced
  have entered := start.follow cp.size 1 (filled.own _ cp.size_mem)
  unfold changePages at ran
  simp only [count] at ran
  rw [readList_alloc, readList_follow, filled.list request cp memory counted] at ran
  split at ran
  · rename_i pages room same readable
    cases same
    split at ran
    · cases ran
    · rename_i left walked
      cases ran
      constructor
      · have callback : cacheabilityModifier request.params =
            cacheabilityModifier (cp.paged request.params.pageAddr) := by
          funext listed address state
          simp only [cacheabilityModifier, CpParams.paged, filled.shouldSkip]
          rfl
        rw [callback]
        exact walked
      · have allocated := alloc_balanced (env.found (byteCount request.pages)) _ _ entered.balanced
        have ptrOwn := alloc_own (env.found (byteCount request.pages)) (follow cp.size 1 memory)
        have read := follow_balanced _ request.pages.toNat _ _ (filled.own _ cp.pageAddr_mem) allocated
        apply entered.trans
        apply Keeps.within
        · exact follow_balanced _ _ _ _ ptrOwn (fill_balanced _ _ _ _ read)
        · intro ptr member length
          rw [readList_follow, readList_fill_apart _ _ _ _ read _ ptr member, readList_follow]
  · cases ran

theorem vmaFinderLoop_refines (cp : CpParams) (data : Ptr) (counted : request.Counted)
    (remaining i count : Nat) (mm mm' : Mm) (memory after : Memory)
    (whole : i + remaining = request.vmas.toNat) (filled : Filled request cp memory)
    (balanced : Balanced memory (data :: cp.arrays))
    (ran : vmaFinderLoop env request cp remaining i count mm memory = some (mm', after)) :
    FunctimeKernelModule.vmaFinderLoop env.gup env.fuel request.params
        (request.params.vmaParam.drop i) count mm = some mm' ∧
      Keeps request.user (data :: cp.arrays) memory after := by
  induction remaining generalizing i count mm memory with
  | zero =>
      cases ran
      have done : request.params.vmaParam.drop i = [] := by
        apply List.drop_eq_nil_of_le
        rw [request.params_vmaParam_length]
        omega
      rw [done]
      exact ⟨rfl, Keeps.refl balanced⟩
  | succ remaining ih =>
      have inside : i < request.vmas.toNat := by omega
      have whole : i + 1 + remaining = request.vmas.toNat := by omega
      rw [request.params_vmaParam_drop i inside]
      simp only [vmaFinderLoop] at ran
      simp only [FunctimeKernelModule.vmaFinderLoop]
      split at ran
      · rename_i passed
        have none_ : mm.mmap.length - count = 0 := Nat.sub_eq_zero_of_le passed
        rw [none_]
        exact ih (i + 1) count mm memory whole filled balanced ran
      · have start : Keeps request.user (data :: cp.arrays) memory memory := Keeps.refl balanced
        have entered := start.follow cp.vmaParam 1 (filled.own _ cp.vmaParam_mem)
        have stillFilled := filled.keeps request cp _ _ data entered
        simp only [filled.index request cp memory counted i inside] at ran
        generalize seekVma (request.vmaIndex i) (mm.mmap.length - count) count = sought at ran ⊢
        obtain ⟨stopped, after_⟩ := sought
        cases stopped with
        | none =>
            dsimp only at ran ⊢
            obtain ⟨same, kept⟩ := ih (i + 1) after_ mm _ whole stillFilled entered.balanced ran
            exact ⟨same, entered.trans kept⟩
        | some stop =>
            dsimp only at ran ⊢
            cases found : mm.mmap[stop]? with
            | none =>
                rw [found] at ran
                cases ran
            | some vma =>
                rw [found] at ran
                dsimp only at ran ⊢
                split at ran
                · cases ran
                · rename_i changed left walked
                  obtain ⟨sameWalk, walkKept⟩ := changePages_refines env request cp vma mm changed _
                    left data counted stillFilled entered.balanced walked
                  have walkFilled := stillFilled.keeps request cp _ _ data walkKept
                  obtain ⟨same, kept⟩ := ih (i + 1) after_ changed left whole walkFilled
                    walkKept.balanced ran
                  rw [sameWalk]
                  exact ⟨same, (entered.trans walkKept).trans kept⟩

theorem visitTask_refines (cp : CpParams) (data : Ptr) (counted : request.Counted) (task : Task)
    (mm : Option Mm) (memory after : Memory) (filled : Filled request cp memory)
    (balanced : Balanced memory (data :: cp.arrays))
    (ran : visitTask env request cp data task memory = some (mm, after)) :
    FunctimeKernelModule.visitTask env.gup env.fuel request.params task = some mm ∧
      Keeps request.user (data :: cp.arrays) memory after := by
  have samePid : request.params.pid = cp.pid := filled.pid.symm
  unfold visitTask at ran
  unfold FunctimeKernelModule.visitTask
  rw [samePid]
  split at ran
  · rename_i named
    rw [if_pos named]
    split at ran
    · rename_i number before atTask
      simp only [atTask]
      obtain ⟨⟨left, last⟩, finding, same⟩ := Option.map_eq_some_iff.mp ran
      cases same
      unfold vmaFinder at finding
      unfold FunctimeKernelModule.vmaFinder
      split at finding
      · cases finding
      · rename_i nonempty
        have count : readAt request.user memory cp.size vmaList = some request.vmas :=
          filled.sizes.entry request memory _ _ _ _ Nat.two_pos
        simp only [count] at finding
        have start : Keeps request.user (.block number :: cp.arrays) memory memory :=
          Keeps.refl balanced
        have entered := start.follow cp.size 1 (filled.own _ cp.size_mem)
        have stillFilled := filled.keeps request cp _ _ (.block number) entered
        obtain ⟨loop, kept⟩ := vmaFinderLoop_refines env request cp (.block number) counted
          request.vmas.toNat 0 0 before left _ after (Nat.zero_add _) stillFilled entered.balanced
          finding
        rw [List.drop_zero] at loop
        rw [if_neg nonempty, loop]
        exact ⟨rfl, entered.trans kept⟩
    · cases ran
  · rename_i other
    cases ran
    exact ⟨if_neg other, Keeps.refl balanced⟩

theorem visitEach_refines (cp : CpParams) (data : Ptr) (counted : request.Counted)
    (tasks left : List Task) (memory after : Memory) (filled : Filled request cp memory)
    (balanced : Balanced memory (data :: cp.arrays))
    (ran : visitEach env request cp data tasks memory = some (left, after)) :
    visitTasks (FunctimeKernelModule.visitTask env.gup env.fuel request.params) tasks = some left ∧
      Keeps request.user (data :: cp.arrays) memory after := by
  induction tasks generalizing left memory with
  | nil =>
      cases ran
      exact ⟨rfl, Keeps.refl balanced⟩
  | cons task rest ih =>
      simp only [visitEach] at ran
      split at ran
      · cases ran
      · rename_i mm middle atTask
        obtain ⟨⟨others, last⟩, atRest, same⟩ := Option.map_eq_some_iff.mp ran
        cases same
        obtain ⟨here, kept⟩ := visitTask_refines env request cp data counted task mm memory middle
          filled balanced atTask
        obtain ⟨later, keptLater⟩ := ih others middle (filled.keeps request cp _ _ data kept)
          kept.balanced atRest
        constructor
        · simp only [visitTasks, here, later]
        · exact kept.trans keptLater

/-- A write in which no copy fails is the one on lists; it frees what it allocated and uses
no pointer from user space. -/
theorem memprofileProcWrite_refines (cp : CpParams) (memory : Memory) (processes : TaskList)
    (module : Module) (ret : Int) (counted : request.Counted) (sound : ¬ request.CopyFails env)
    (balanced : Balanced memory [])
    (wrote : memprofileProcWrite env request ⟨cp, memory, processes.tasks⟩ = some (ret, module)) :
    ret = 0 ∧ Balanced module.memory [] ∧
      (FunctimeKernelModule.memprofileProcWrite env.gup env.fuel true request.params processes).map
        (fun result => (result.1, result.2.tasks)) = some (0, module.processes) := by
  have whole := request.headerCopy.whole_of_sound (fun fails => sound (Or.inl fails))
  simp only [memprofileProcWrite, whole] at wrote
  split at wrote
  · cases wrote
  · rename_i filledCp filledMemory filling
    obtain ⟨filled, filledBalanced⟩ := fillingParams_filled env request filledCp memory filledMemory
      sound balanced filling
    unfold getVma at wrote
    dsimp only at wrote
    rw [Option.map_map] at wrote
    obtain ⟨⟨tasks, last⟩, visiting, same⟩ := Option.map_eq_some_iff.mp wrote
    cases same
    have allocated := alloc_balanced (env.found dataBytes) filledMemory _ filledBalanced
    have dataOwn := alloc_own (env.found dataBytes) filledMemory
    have stillFilled : Filled request filledCp (alloc (env.found dataBytes) filledMemory).2 :=
      ⟨filled.own, filled.sizes.kept request _ _ _ _ _ (readList_alloc _ _ _ _ _),
        filled.pages.kept request _ _ _ _ _ (readList_alloc _ _ _ _ _),
        filled.vmas.kept request _ _ _ _ _ (readList_alloc _ _ _ _ _), filled.shouldSkip,
        filled.pid⟩
    obtain ⟨visited, kept⟩ := visitEach_refines env request filledCp _ counted processes.tasks tasks
      _ last stillFilled allocated visiting
    have freed := release_balanced _ _ _ dataOwn kept.balanced
    refine ⟨rfl, ?_, ?_⟩
    · have pageFirst := freed.perm (List.Perm.swap filledCp.pageAddr filledCp.vmaParam [filledCp.size])
      have pageFreed := release_balanced _ _ _ (filled.own _ filledCp.pageAddr_mem) pageFirst
      have vmaFreed := release_balanced _ _ _ (filled.own _ filledCp.vmaParam_mem) pageFreed
      exact release_balanced _ _ _ (filled.own _ filledCp.size_mem) vmaFreed
    · rw [← forEachProcess_map_tasks] at visited
      obtain ⟨list, each, rfl⟩ := Option.map_eq_some_iff.mp visited
      simp only [FunctimeKernelModule.memprofileProcWrite, Bool.true_eq_false, if_false, each,
        Option.map_some]

end Copied

end BlackboxProfiling.FunctimeKernelModule.Pointers
