import BlackboxProfiling.CacheMaintenance
import BlackboxProfiling.Kernel.BothMultiple
import BlackboxProfiling.Kernel.FunctimeKernelModule
import BlackboxProfiling.Kernel.SdVbs

/-!
Cache and translation maintenance of the modules that change entries.

For each module, the calls it makes for the pages of one area in the order of the
source: the two invalidate loops, `set_pte_ext` and `__flush_tlb_page`, each with
the address the module gives it. `kmap` belongs to the kernel and is a parameter.
-/

namespace BlackboxProfiling

open AddressWalk CacheMaintenance

abbrev Ulong := BitVec 32

abbrev Cpu := Machine 32 Nat Pte

def lineSize : Nat := 32

def pageToPhys (pfn : Nat) : Ulong := BitVec.ofNat 32 (pfn * pageSize)

/-- The first number of `invalidatePageL1` is the page at work; it tells apart the
translations in force, as `kmap` uses its addresses again. -/
inductive Call where
  | invalidatePageL1 (page : Nat) (vaAddr : Ulong)
  | invalidatePageL2 (paAddr : Ulong)
  | setPteExt (addr : Nat) (pte : Pte)
  | flushTlbPage (uaddr : Nat)
  deriving DecidableEq, Repr

def invalidatePageL1 (translate : Ulong → Ulong) (fuel : Nat) (vaAddr : Ulong) (cpu : Cpu) :
    Option Cpu :=
  lineLoop
    (fun tmp reached =>
      (reached.invalidateInstruction (translate tmp)).cleanInvalidateL1 (translate tmp))
    lineSize (vaAddr + BitVec.ofNat 32 pageSize) fuel vaAddr cpu

/-- Each round stores a physical address into the clean-and-invalidate register. -/
def invalidatePageL2 (fuel : Nat) (paAddr : Ulong) (cpu : Cpu) : Option Cpu :=
  lineLoop (fun tmp reached => reached.cleanInvalidateL2 tmp) lineSize
    (paAddr + BitVec.ofNat 32 pageSize) fuel paAddr cpu

def runCall (translate : Nat → Ulong → Ulong) (fuel : Nat) (cpu : Cpu) : Call → Option Cpu
  | .invalidatePageL1 page vaAddr => invalidatePageL1 (translate page) fuel vaAddr cpu
  | .invalidatePageL2 paAddr => invalidatePageL2 fuel paAddr cpu
  | .setPteExt _addr _pte => some cpu
  | .flushTlbPage uaddr => some (cpu.flushTlb (BitVec.ofNat 32 uaddr))

def runCalls (translate : Nat → Ulong → Ulong) (fuel : Nat) (calls : List Call) (cpu : Cpu) :
    Option Cpu :=
  calls.foldlM (runCall translate fuel) cpu

/-- What the callbacks do with a page, but for the address of the first loop. -/
def modifyPageCalls (skip : Nat → Bool) (vaAddr : Nat → Nat → Ulong) (address : Nat)
    (state : PageTable × Pgprot) : List Call :=
  if skip address then []
  else
    let vmPageProt := pgprotNoncached state.2
    let pfn := ptePfn (state.1 address)
    let newpte := pfnPte pfn vmPageProt
    [.invalidatePageL1 address (vaAddr address pfn), .invalidatePageL2 (pageToPhys pfn),
      .setPteExt address newpte, .flushTlbPage address]

def BothMultiple.printMemCalls (kmap : Nat → Nat → Ulong) (cp : BothMultiple.Params)
    (listed : List Nat) (address : Nat) (state : PageTable × Pgprot) : List Call :=
  modifyPageCalls (skipPage cp.shouldSkip listed) kmap address state

def FunctimeKernelModule.cacheabilityModifierCalls (kmap : Nat → Nat → Ulong)
    (cp : FunctimeKernelModule.Params) (listed : List Nat) (address : Nat)
    (state : PageTable × Pgprot) : List Call :=
  modifyPageCalls (skipPage cp.shouldSkip listed) kmap address state

/-- The first loop gets the user address of the page. -/
def AllNoncacheableExceptOneSdVbs.printMemCalls (skipped address : Nat)
    (state : PageTable × Pgprot) : List Call :=
  modifyPageCalls (fun addr => decide (addr = skipped))
    (fun addr _pfn => BitVec.ofNat 32 addr) address state

def AllCacheableExceptOneSdVbs.setPageCalls (p : Int) (table : PageTable) (vma : Vma) :
    List Call :=
  let address := pageAddr vma.vmStart p
  let vmPageProt := pgprotNoncached vma.vmPageProt
  let pfn := ptePfn (table address)
  let newpte := pfnPte pfn vmPageProt
  [.invalidatePageL1 address (BitVec.ofNat 32 address), .invalidatePageL2 (pageToPhys pfn),
    .setPteExt address newpte, .flushTlbPage address]

/-- No loop, and the translation flushed is that of the first page of the area. -/
def AllCacheableExceptOne.setPageCalls (p : Int) (table : PageTable) (vma : Vma) : List Call :=
  let address := pageAddr vma.vmStart p
  let vmPageProt := pgprotNoncached vma.vmPageProt
  let newpte := pfnPte (ptePfn (table address)) vmPageProt
  [.setPteExt address newpte, .flushTlbPage vma.vmStart]

inductive PteWriter where
  | allCacheableExceptOne (p : Int)
  | allCacheableExceptOneSdVbs (p : Int)
  | allNoncacheableExceptOneSdVbs (p : Int)
  | bothMultiple (cp : BothMultiple.Params)
  | functimeKernelModule (cp : FunctimeKernelModule.Params)

def PteWriter.calls (kmap : Nat → Nat → Ulong) (vma : Vma) (table : PageTable) :
    PteWriter → List Call
  | .allCacheableExceptOne p => AllCacheableExceptOne.setPageCalls p table vma
  | .allCacheableExceptOneSdVbs p => AllCacheableExceptOneSdVbs.setPageCalls p table vma
  | .allNoncacheableExceptOneSdVbs p =>
      applyToPageRangeLog vma.vmStart (vma.vmEnd - vma.vmStart)
        (AllNoncacheableExceptOneSdVbs.printMemCalls (pageAddr vma.vmStart p))
        (AllNoncacheableExceptOneSdVbs.printMem (pageAddr vma.vmStart p)) (table, vma.vmPageProt)
  | .bothMultiple cp =>
      applyToPageRangeLog vma.vmStart (vma.vmEnd - vma.vmStart)
        (BothMultiple.printMemCalls kmap cp (listedAddrs cp.buff vma))
        (BothMultiple.printMem cp (listedAddrs cp.buff vma)) (table, vma.vmPageProt)
  | .functimeKernelModule cp =>
      applyToPageRangeLog vma.vmStart (vma.vmEnd - vma.vmStart)
        (FunctimeKernelModule.cacheabilityModifierCalls kmap cp (listedAddrs cp.pageAddr vma))
        (FunctimeKernelModule.cacheabilityModifier cp (listedAddrs cp.pageAddr vma))
        (table, vma.vmPageProt)

def PteWriter.InRange (vma : Vma) : PteWriter → Prop
  | .allCacheableExceptOne p => 1 ≤ p ∧ p ≤ vma.pageCount
  | .allCacheableExceptOneSdVbs p => 1 ≤ p ∧ p ≤ vma.pageCount
  | _ => True

def setPtes : List Call → PageTable → PageTable
  | [], table => table
  | .setPteExt address pte :: rest, table => setPtes rest (Function.update table address pte)
  | _ :: rest, table => setPtes rest table

private theorem setPtes_append (earlier later : List Call) (table : PageTable) :
    setPtes (earlier ++ later) table = setPtes later (setPtes earlier table) := by
  induction earlier generalizing table with
  | nil => rfl
  | cons call rest ih => cases call <;> exact ih _

private theorem modifyPageCalls_setPtes (skip : Nat → Bool) (vaAddr : Nat → Nat → Ulong) (address : Nat)
    (state : PageTable × Pgprot) :
    setPtes (modifyPageCalls skip vaAddr address state) state.1 =
      (modifyPage skip address state).2.1 := by
  cases skipped : skip address <;> simp [modifyPageCalls, modifyPage, skipped, setPtes]

private theorem walkLog_setPtes (skip : Nat → Bool) (vaAddr : Nat → Nat → Ulong) (addresses : List Nat)
    (state : PageTable × Pgprot) :
    setPtes (walkLog (modifyPageCalls skip vaAddr) (modifyPage skip) addresses state) state.1 =
      (walk (modifyPage skip) addresses state).2.1 := by
  induction addresses generalizing state with
  | nil => rfl
  | cons address rest ih =>
      have called : (modifyPage skip address state).1 = 0 := by
        unfold modifyPage
        split <;> rfl
      simp only [walkLog, walk, called, if_true]
      rw [setPtes_append, modifyPageCalls_setPtes, ih]

def PteWriter.tableAfter (vma : Vma) (mm : Mm) : PteWriter → PageTable
  | .allCacheableExceptOne p => (AllCacheableExceptOne.setPage p mm vma).pte
  | .allCacheableExceptOneSdVbs p => (AllCacheableExceptOne.setPage p mm vma).pte
  | .allNoncacheableExceptOneSdVbs p =>
      (applyToPageRange vma.vmStart (vma.vmEnd - vma.vmStart)
        (AllNoncacheableExceptOneSdVbs.printMem (pageAddr vma.vmStart p))
        (mm.pte, vma.vmPageProt)).2.1
  | .bothMultiple cp =>
      (applyToPageRange vma.vmStart (vma.vmEnd - vma.vmStart)
        (BothMultiple.printMem cp (listedAddrs cp.buff vma)) (mm.pte, vma.vmPageProt)).2.1
  | .functimeKernelModule cp =>
      (applyToPageRange vma.vmStart (vma.vmEnd - vma.vmStart)
        (FunctimeKernelModule.cacheabilityModifier cp (listedAddrs cp.pageAddr vma))
        (mm.pte, vma.vmPageProt)).2.1

/-- The entry that a one-page module walks down to is there; the other modules walk over
tables that are there or are added. -/
def PteWriter.Tabled (vma : Vma) (mm : Mm) : PteWriter → Prop
  | .allCacheableExceptOne p => mm.hasTable (pageAddr vma.vmStart p) = true
  | .allCacheableExceptOneSdVbs p => mm.hasTable (pageAddr vma.vmStart p) = true
  | _ => True

theorem PteWriter.calls_setPtes (writer : PteWriter) (kmap : Nat → Nat → Ulong) (vma : Vma)
    (mm : Mm) (tabled : writer.Tabled vma mm) :
    setPtes (writer.calls kmap vma mm.pte) mm.pte = writer.tableAfter vma mm := by
  cases writer with
  | allCacheableExceptOne p =>
      have here : mm.hasTable (pageAddr vma.vmStart p) = true := tabled
      simp only [tableAfter, AllCacheableExceptOne.setPage, if_pos here, Mm.store_pte]
      rfl
  | allCacheableExceptOneSdVbs p =>
      have here : mm.hasTable (pageAddr vma.vmStart p) = true := tabled
      simp only [tableAfter, AllCacheableExceptOne.setPage, if_pos here, Mm.store_pte]
      rfl
  | allNoncacheableExceptOneSdVbs p =>
      rw [calls, applyToPageRangeLog_eq]
      exact walkLog_setPtes (fun addr => decide (addr = pageAddr vma.vmStart p))
        (fun addr _pfn => BitVec.ofNat 32 addr) _ (mm.pte, vma.vmPageProt)
  | bothMultiple cp =>
      rw [calls, applyToPageRangeLog_eq]
      exact walkLog_setPtes (skipPage cp.shouldSkip (listedAddrs cp.buff vma)) kmap _
        (mm.pte, vma.vmPageProt)
  | functimeKernelModule cp =>
      rw [calls, applyToPageRangeLog_eq]
      exact walkLog_setPtes (skipPage cp.shouldSkip (listedAddrs cp.pageAddr vma)) kmap _
        (mm.pte, vma.vmPageProt)

structure PageSwitch where
  page : Nat
  vaAddr : Ulong
  pte : Pte

def PageSwitch.calls (switch : PageSwitch) : List Call :=
  [.invalidatePageL1 switch.page switch.vaAddr, .invalidatePageL2 (pageToPhys switch.pte.pfn),
    .setPteExt switch.page switch.pte, .flushTlbPage switch.page]

def PageSwitch.Mapped (translate : Nat → Ulong → Ulong) (switch : PageSwitch) : Prop :=
  ∀ offset < pageSize, translate switch.page (switch.vaAddr + BitVec.ofNat 32 offset) =
    pageToPhys switch.pte.pfn + BitVec.ofNat 32 offset

def pageLines (start : Ulong) : List Ulong := lines start lineSize (pageSize / lineSize)

theorem lineLoop_page {σ : Type} (body : Ulong → σ → σ) (start : Ulong) (state : σ) (fuel : Nat)
    (enough : pageSize / lineSize ≤ fuel) :
    lineLoop body lineSize (start + BitVec.ofNat 32 pageSize) fuel start state =
      some ((pageLines start).foldl (fun reached line => body line reached) state) :=
  lineLoop_lines body lineSize 127 (by decide) (by decide) start state fuel enough

private theorem PageSwitch.lines_mapped (translate : Nat → Ulong → Ulong) (switch : PageSwitch)
    (mapped : switch.Mapped translate) :
    (pageLines switch.vaAddr).map (translate switch.page) =
      pageLines (pageToPhys switch.pte.pfn) := by
  simp only [pageLines, lines, List.map_map]
  apply List.map_congr_left
  intro offset member
  obtain ⟨index, below, rfl⟩ := List.mem_range'.mp member
  apply mapped
  simp only [pageSize, lineSize] at below ⊢
  omega

theorem PageSwitch.loops_uncached (translate : Nat → Ulong → Ulong) (switch : PageSwitch)
    (mapped : switch.Mapped translate) (fuel : Nat) (enough : pageSize / lineSize ≤ fuel)
    (cpu : Cpu) :
    ∃ ready, runCalls translate fuel [.invalidatePageL1 switch.page switch.vaAddr,
        .invalidatePageL2 (pageToPhys switch.pte.pfn)] cpu = some ready ∧
      cpu.Maintains ready ∧ ∀ line ∈ pageLines (pageToPhys switch.pte.pfn),
        ready.Uncached line ∧ ready.memory line = cpu.latest line := by
  have passes := bothPasses_uncached (translate switch.page) (pageLines switch.vaAddr)
    (pageLines (pageToPhys switch.pte.pfn)) (switch.lines_mapped translate mapped) cpu
  refine ⟨_, ?_, passes⟩
  simp only [runCalls, List.foldlM_cons, runCall, invalidatePageL1, invalidatePageL2]
  rw [lineLoop_page _ _ _ fuel enough, Option.bind_eq_bind, Option.bind_some,
    lineLoop_page _ _ _ fuel enough]
  rfl

private theorem runCalls_append (translate : Nat → Ulong → Ulong) (fuel : Nat)
    (earlier later : List Call)
    (cpu middle : Cpu) (ran : runCalls translate fuel earlier cpu = some middle) :
    runCalls translate fuel (earlier ++ later) cpu = runCalls translate fuel later middle := by
  rw [runCalls, List.foldlM_append]
  change runCalls translate fuel earlier cpu >>= _ = _
  rw [ran]
  rfl

private theorem PageSwitch.calls_maintain (translate : Nat → Ulong → Ulong) (switch : PageSwitch)
    (mapped : switch.Mapped translate) (fuel : Nat) (enough : pageSize / lineSize ≤ fuel)
    (cpu : Cpu) :
    ∃ done, runCalls translate fuel switch.calls cpu = some done ∧ cpu.Maintains done := by
  obtain ⟨ready, ran, kept, _clean⟩ := switch.loops_uncached translate mapped fuel enough cpu
  refine ⟨ready.flushTlb (BitVec.ofNat 32 switch.page), ?_,
    kept.trans (ready.flushTlb_maintains _)⟩
  exact runCalls_append translate fuel _ [.setPteExt switch.page switch.pte,
    .flushTlbPage switch.page] cpu ready ran

private theorem switches_maintain (translate : Nat → Ulong → Ulong) (switches : List PageSwitch)
    (mapped : ∀ switch ∈ switches, switch.Mapped translate) (fuel : Nat)
    (enough : pageSize / lineSize ≤ fuel) (cpu : Cpu) :
    ∃ done, runCalls translate fuel (switches.flatMap PageSwitch.calls) cpu = some done ∧
      cpu.Maintains done := by
  induction switches generalizing cpu with
  | nil => exact ⟨cpu, rfl, .refl cpu⟩
  | cons switch rest ih =>
      obtain ⟨middle, first, kept⟩ :=
        switch.calls_maintain translate (mapped switch List.mem_cons_self) fuel enough cpu
      obtain ⟨done, later, keptLater⟩ :=
        ih (fun other member => mapped other (List.mem_cons_of_mem switch member)) middle
      refine ⟨done, ?_, kept.trans keptLater⟩
      rw [List.flatMap_cons, runCalls_append translate fuel _ _ cpu middle first, later]

/-- For every page whose entry is set: before that, whatever the caches held, both
loops have gone over its lines, and after it, whatever was translated, its own
translation is flushed. -/
structure LeavesNothingStale (translate : Nat → Ulong → Ulong) (calls : List Call) : Prop where
  loops : ∀ (start : Ulong) (fuel : Nat), pageSize / lineSize ≤ fuel →
    lineLoop (fun tmp touched => touched ++ [tmp]) lineSize (start + BitVec.ofNat 32 pageSize) fuel
      start [] = some (pageLines start) ∧ (pageLines start).Nodup
  cleaned : ∀ before address pte after, calls = before ++ Call.setPteExt address pte :: after →
    ∀ fuel, pageSize / lineSize ≤ fuel → ∀ prior : Cpu,
      ∃ ready, runCalls translate fuel before prior = some ready ∧
        ∀ line ∈ pageLines (pageToPhys pte.pfn),
          ready.Uncached line ∧ ready.memory line = prior.latest line
  flushed : ∀ before address pte after, calls = before ++ Call.setPteExt address pte :: after →
    ∀ fuel, pageSize / lineSize ≤ fuel → ∀ prior : Cpu,
      ∃ done, runCalls translate fuel after prior = some done ∧
        done.tlb (BitVec.ofNat 32 address) = none

private theorem pageLines_nodup (start : Ulong) : (pageLines start).Nodup :=
  lines_nodup start lineSize _ (by decide) (by decide)

private theorem lineLoop_touches (start : Ulong) (fuel : Nat) (enough : pageSize / lineSize ≤ fuel) :
    lineLoop (fun tmp touched => touched ++ [tmp]) lineSize (start + BitVec.ofNat 32 pageSize) fuel
      start [] = some (pageLines start) := by
  rw [lineLoop_page _ _ _ fuel enough, List.foldl_append_eq_append, List.nil_append]
  exact congrArg some (List.flatMap_singleton' _)

/-- Where a page's entry is set, its own two loops stand right before it, its own
flush right behind it, and whole pages on either side. -/
theorem switches_split (switches : List PageSwitch) (before after : List Call) (address : Nat)
    (pte : Pte)
    (split : switches.flatMap PageSwitch.calls = before ++ Call.setPteExt address pte :: after) :
    ∃ earlier switch later, switches = earlier ++ switch :: later ∧
      switch.page = address ∧ switch.pte = pte ∧
      before = earlier.flatMap PageSwitch.calls ++
        [.invalidatePageL1 switch.page switch.vaAddr,
          .invalidatePageL2 (pageToPhys switch.pte.pfn)] ∧
      after = .flushTlbPage switch.page :: later.flatMap PageSwitch.calls := by
  induction switches generalizing before with
  | nil => cases before <;> cases split
  | cons switch rest ih =>
      simp only [List.flatMap_cons, PageSwitch.calls, List.cons_append, List.nil_append] at split
      rcases before with _ | ⟨first, _ | ⟨second, _ | ⟨third, _ | ⟨fourth, before⟩⟩⟩⟩
      · cases split
      · cases split
      · cases split
        exact ⟨[], switch, rest, rfl, rfl, rfl, rfl, rfl⟩
      · cases split
      · simp only [List.cons_append, List.cons.injEq] at split
        obtain ⟨rfl, rfl, rfl, rfl, remains⟩ := split
        obtain ⟨earlier, found, later, rfl, atPage, atPte, rfl, rfl⟩ := ih before remains
        exact ⟨switch :: earlier, found, later, rfl, atPage, atPte, rfl, rfl⟩

private theorem switches_leaveNothingStale (translate : Nat → Ulong → Ulong)
    (switches : List PageSwitch)
    (mapped : ∀ switch ∈ switches, switch.Mapped translate) :
    LeavesNothingStale translate (switches.flatMap PageSwitch.calls) := by
  refine ⟨fun start fuel enough => ⟨lineLoop_touches start fuel enough, pageLines_nodup start⟩,
    ?_, ?_⟩
  · intro before address pte after split fuel enough prior
    obtain ⟨earlier, switch, later, rfl, _page, rfl, rfl, _after⟩ :=
      switches_split switches before after address pte split
    have own := mapped switch (List.mem_append_right earlier List.mem_cons_self)
    obtain ⟨middle, first, kept⟩ := switches_maintain translate earlier
      (fun other member => mapped other (List.mem_append_left _ member)) fuel enough prior
    obtain ⟨ready, loops, _kept, clean⟩ := switch.loops_uncached translate own fuel enough middle
    refine ⟨ready, ?_, ?_⟩
    · rw [runCalls_append translate fuel _ _ prior middle first, loops]
    · intro line member
      obtain ⟨uncached, saved⟩ := clean line member
      exact ⟨uncached, saved.trans (kept.latest line)⟩
  · intro before address pte after split fuel enough prior
    obtain ⟨earlier, switch, later, rfl, rfl, _pte, _before, rfl⟩ :=
      switches_split switches before after address pte split
    obtain ⟨done, ran, kept⟩ := switches_maintain translate later
      (fun other member => mapped other
        (List.mem_append_right earlier (List.mem_cons_of_mem switch member))) fuel enough
      (prior.flushTlb (BitVec.ofNat 32 switch.page))
    exact ⟨done, ran, kept.tlb _ (Machine.flushTlb_tlb prior _)⟩

/-- The translations in force while a page of the area is at work: its user address
and the address `kmap` gave for its frame both map that frame. -/
structure Mapping (vma : Vma) (table : PageTable) where
  translate : Nat → Ulong → Ulong
  kmap : Nat → Nat → Ulong
  kmapped : ∀ address ∈ vma.pageAddrs, ∀ offset < pageSize,
    translate address (kmap address (table address).pfn + BitVec.ofNat 32 offset) =
      pageToPhys (table address).pfn + BitVec.ofNat 32 offset
  userMapped : ∀ address ∈ vma.pageAddrs, ∀ offset < pageSize,
    translate address (BitVec.ofNat 32 address + BitVec.ofNat 32 offset) =
      pageToPhys (table address).pfn + BitVec.ofNat 32 offset

def Mapping.user (vma : Vma) (table : PageTable) : Mapping vma table where
  translate := fun address vaAddr =>
    pageToPhys (table address).pfn + (vaAddr - BitVec.ofNat 32 address)
  kmap := fun address _pfn => BitVec.ofNat 32 address
  kmapped := by
    intro address _inside offset _below
    rw [BitVec.add_comm (BitVec.ofNat 32 address), BitVec.add_sub_cancel]
  userMapped := by
    intro address _inside offset _below
    rw [BitVec.add_comm (BitVec.ofNat 32 address), BitVec.add_sub_cancel]

private theorem flatMap_switches (translate : Nat → Ulong → Ulong) (calls : Nat → List Call)
    (addresses : List Nat)
    (each : ∀ address ∈ addresses, ∃ switches : List PageSwitch,
      calls address = switches.flatMap PageSwitch.calls ∧
        ∀ switch ∈ switches, switch.Mapped translate) :
    ∃ switches : List PageSwitch,
      addresses.flatMap calls = switches.flatMap PageSwitch.calls ∧
        ∀ switch ∈ switches, switch.Mapped translate := by
  induction addresses with
  | nil => exact ⟨[], rfl, fun _switch member => absurd member List.not_mem_nil⟩
  | cons address rest ih =>
      obtain ⟨first, firstCalls, firstMapped⟩ := each address List.mem_cons_self
      obtain ⟨later, laterCalls, laterMapped⟩ :=
        ih (fun other member => each other (List.mem_cons_of_mem address member))
      refine ⟨first ++ later, ?_, ?_⟩
      · rw [List.flatMap_cons, firstCalls, laterCalls, List.flatMap_append]
      · intro switch member
        rcases List.mem_append.mp member with early | late
        · exact firstMapped switch early
        · exact laterMapped switch late

theorem modifyPageCalls_switches (skip : Nat → Bool) (vaAddr : Nat → Nat → Ulong) (vma : Vma)
    (table : PageTable) (translate : Nat → Ulong → Ulong)
    (mapped : ∀ address ∈ vma.pageAddrs, ∀ offset < pageSize,
      translate address (vaAddr address (table address).pfn + BitVec.ofNat 32 offset) =
        pageToPhys (table address).pfn + BitVec.ofNat 32 offset) :
    ∃ switches : List PageSwitch,
      applyToPageRangeLog vma.vmStart (vma.vmEnd - vma.vmStart) (modifyPageCalls skip vaAddr)
          (modifyPage skip) (table, vma.vmPageProt) = switches.flatMap PageSwitch.calls ∧
        ∀ switch ∈ switches, switch.Mapped translate := by
  rw [applyToPageRangeLog_modifyPage skip _ _ _
    (fun address pte prot => if skip address then [] else
      PageSwitch.calls ⟨address, vaAddr address pte.pfn, pfnPte pte.pfn prot⟩)
    (fun _address _table _prot => rfl)]
  apply flatMap_switches
  intro address inside
  cases skipped : skip address with
  | true => exact ⟨[], rfl, fun _switch member => absurd member List.not_mem_nil⟩
  | false =>
      refine ⟨[⟨address, vaAddr address (table address).pfn,
        pfnPte (table address).pfn (pgprotNoncached vma.vmPageProt)⟩], ?_, ?_⟩
      · rw [List.flatMap_singleton]
        rfl
      · intro switch member
        rw [List.mem_singleton.mp member]
        exact mapped address inside

private theorem AllCacheableExceptOne.setPageCalls_stale (p : Int) (table : PageTable) (vma : Vma)
    (translate : Nat → Ulong → Ulong) :
    ¬ LeavesNothingStale translate (setPageCalls p table vma) := by
  intro clean
  let held : Cpu :=
    { icache := fun _line => none
      l1 := fun _line => some ⟨0, true⟩
      l2 := fun _line => none
      memory := fun _line => 0
      tlb := fun _page => none }
  obtain ⟨ready, ran, lines⟩ := clean.cleaned [] _ _ _ rfl (pageSize / lineSize) (Nat.le_refl _) held
  cases ran
  have first : pageToPhys (ptePfn (table (pageAddr vma.vmStart p))) ∈
      pageLines (pageToPhys (ptePfn (table (pageAddr vma.vmStart p)))) := by
    rw [pageLines, show pageSize / lineSize = 127 + 1 from rfl, lines_succ]
    exact List.mem_cons_self
  cases (lines _ first).1.l1

/-- Which modules leave nothing stale, for every area and every prior content: all
but the one that has no cache maintenance. -/
theorem PteWriter.leavesNothingStale_iff (writer : PteWriter) (vma : Vma) (table : PageTable)
    (mapping : Mapping vma table) (inRange : writer.InRange vma) :
    LeavesNothingStale mapping.translate (writer.calls mapping.kmap vma table) ↔
      ∀ p, writer ≠ .allCacheableExceptOne p := by
  have whole (calls : List Call) (switches : ∃ switches : List PageSwitch,
      calls = switches.flatMap PageSwitch.calls ∧
        ∀ switch ∈ switches, switch.Mapped mapping.translate) :
      LeavesNothingStale mapping.translate calls := by
    obtain ⟨list, rfl, mapped⟩ := switches
    exact switches_leaveNothingStale mapping.translate list mapped
  cases writer with
  | allCacheableExceptOne p =>
      exact iff_of_false (AllCacheableExceptOne.setPageCalls_stale p table vma _)
        (fun other => other p rfl)
  | allCacheableExceptOneSdVbs p =>
      apply iff_of_true (whole _ _) (fun _p impossible => by cases impossible)
      refine ⟨[⟨pageAddr vma.vmStart p, BitVec.ofNat 32 (pageAddr vma.vmStart p),
        pfnPte (table (pageAddr vma.vmStart p)).pfn (pgprotNoncached vma.vmPageProt)⟩], ?_, ?_⟩
      · rw [List.flatMap_singleton]
        rfl
      · intro switch member
        rw [List.mem_singleton.mp member]
        exact mapping.userMapped _ (pageAddr_mem vma p inRange.1 inRange.2)
  | allNoncacheableExceptOneSdVbs p =>
      apply iff_of_true (whole _ _) (fun _p impossible => by cases impossible)
      exact modifyPageCalls_switches _ _ vma table _ mapping.userMapped
  | bothMultiple cp =>
      apply iff_of_true (whole _ _) (fun _p impossible => by cases impossible)
      exact modifyPageCalls_switches _ mapping.kmap vma table _ mapping.kmapped
  | functimeKernelModule cp =>
      apply iff_of_true (whole _ _) (fun _p impossible => by cases impossible)
      exact modifyPageCalls_switches _ mapping.kmap vma table _ mapping.kmapped

theorem PteWriter.leavesNothingStale_iff_sample :
    LeavesNothingStale (Mapping.user sampleHeap sampleMm.pte).translate
      (PteWriter.calls (Mapping.user sampleHeap sampleMm.pte).kmap sampleHeap sampleMm.pte
        (.allCacheableExceptOneSdVbs 2)) :=
  (PteWriter.leavesNothingStale_iff (.allCacheableExceptOneSdVbs 2) sampleHeap sampleMm.pte
    (Mapping.user sampleHeap sampleMm.pte) (And.intro (by decide) (by decide))).mpr
    (fun _p impossible => by cases impossible)

theorem PteWriter.plainModule_leaves_stale_lines :
    PteWriter.InRange sampleHeap (.allCacheableExceptOne 2) ∧
      ¬ LeavesNothingStale (Mapping.user sampleHeap sampleMm.pte).translate
        (PteWriter.calls (Mapping.user sampleHeap sampleMm.pte).kmap sampleHeap sampleMm.pte
          (.allCacheableExceptOne 2)) :=
  ⟨And.intro (by decide) (by decide),
    AllCacheableExceptOne.setPageCalls_stale 2 sampleMm.pte sampleHeap _⟩

end BlackboxProfiling
