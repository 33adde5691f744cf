import BlackboxProfiling.Kernel.BothMultiple
import BlackboxProfiling.Kernel.FunctimeKernelModule

/-!
The entries from which the callback of the multi-page modules takes a page. The
populate step before the walk goes up to the first page that cannot be faulted in
and its result is dropped; the walk covers the whole area all the same.
-/

namespace BlackboxProfiling

open AddressWalk

/-- `__get_user_pages` with some pages it can fault in: it pins at least the first of
them, and no page beyond the first that it cannot; it fails when that is the first
page asked for. Entries of pages it does not pin stay. -/
structure GetUserPages.Faults (gup : GetUserPages) (faultable : Nat → Bool) : Prop where
  pins : ∀ call vma start nrPages flags table, 0 < nrPages → start % pageSize = 0 →
    faultable start = true → ∃ pinned, 0 < pinned ∧ pinned ≤ nrPages ∧
      (gup.run call vma start nrPages flags table).ret = (pinned : Nat) ∧
      ∀ index < pinned, faultable (start + pageSize * index) = true ∧
        ((gup.run call vma start nrPages flags table).pte
          (start + pageSize * index)).present = true
  fails : ∀ call vma start nrPages flags table, 0 < nrPages → faultable start = false →
    (gup.run call vma start nrPages flags table).ret < 0
  unpinned : ∀ call vma start nrPages flags table address,
    address < start ∨
      start + pageSize * (gup.run call vma start nrPages flags table).ret.toNat ≤ address →
    (gup.run call vma start nrPages flags table).pte address = table address

def Reached (faultable : Nat → Bool) (vma : Vma) (nstart address : Nat) : Prop :=
  nstart ≤ address ∧
    ∀ page ∈ vma.pageAddrs, nstart ≤ page → page ≤ address → faultable page = true

def Vma.populated (vma : Vma) : Prop := (vma.vmFlags.io || vma.vmFlags.pfnmap) = false

def Populates (faultable : Nat → Bool) (vma : Vma) (nstart : Nat) (table table' : PageTable) :
    Prop :=
  ∀ address ∈ vma.pageAddrs,
    (vma.populated ∧ Reached faultable vma nstart address → (table' address).present = true) ∧
      (¬ (vma.populated ∧ Reached faultable vma nstart address) → table' address = table address)

private theorem populates_end (faultable : Nat → Bool) (vma : Vma) (nstart : Nat) (table : PageTable)
    (past : vma.vmEnd ≤ nstart) : Populates faultable vma nstart table table := by
  intro address inside
  obtain ⟨_low, high, _aligned⟩ := (vma.mem_pageAddrs_iff address).mp inside
  constructor
  · rintro ⟨_area, above, _pages⟩
    omega
  · intro _beyond
    rfl

private theorem populates_skipped (faultable : Nat → Bool) (vma : Vma) (nstart : Nat)
    (table : PageTable)
    (skipped : ¬ vma.populated) : Populates faultable vma nstart table table := by
  intro address _inside
  constructor
  · rintro ⟨area, _reached⟩
    exact absurd area skipped
  · intro _beyond
    rfl

private theorem populates_stuck (faultable : Nat → Bool) (vma : Vma) (nstart : Nat) (table : PageTable)
    (member : nstart ∈ vma.pageAddrs) (stuck : faultable nstart = false) :
    Populates faultable vma nstart table table := by
  intro address _inside
  constructor
  · rintro ⟨_area, above, pages⟩
    rw [pages nstart member (Nat.le_refl nstart) above] at stuck
    cases stuck
  · intro _beyond
    rfl

theorem populates_pinned (faultable : Nat → Bool) (vma : Vma) (nstart pinned : Nat)
    (table middle table' : PageTable) (member : nstart ∈ vma.pageAddrs) (area : vma.populated)
    (pins : ∀ index < pinned, faultable (nstart + pageSize * index) = true ∧
      (middle (nstart + pageSize * index)).present = true)
    (unpinned : ∀ address, address < nstart ∨ nstart + pageSize * pinned ≤ address →
      middle address = table address)
    (later : Populates faultable vma (nstart + pageSize * pinned) middle table') :
    Populates faultable vma nstart table table' := by
  have aligned := ((vma.mem_pageAddrs_iff nstart).mp member).2.2
  have indexed (page : Nat) (pageAligned : page % pageSize = 0) (low : nstart ≤ page)
      (high : page < nstart + pageSize * pinned) :
      ∃ index < pinned, page = nstart + pageSize * index := by
    refine ⟨(page - nstart) / pageSize, ?_, ?_⟩ <;> simp only [pageSize] at * <;> omega
  intro address addressInside
  obtain ⟨_low, _high, addressAligned⟩ := (vma.mem_pageAddrs_iff address).mp addressInside
  obtain ⟨reachedLater, keptLater⟩ := later address addressInside
  by_cases below : address < nstart + pageSize * pinned
  · have kept : table' address = middle address :=
      keptLater (fun both => absurd both.2.1 (Nat.not_le.mpr below))
    rw [kept]
    by_cases before : address < nstart
    · constructor
      · rintro ⟨_area, above, _pages⟩
        exact absurd above (Nat.not_le.mpr before)
      · intro _beyond
        exact unpinned address (Or.inl before)
    · obtain ⟨index, small, rfl⟩ := indexed address addressAligned (Nat.not_lt.mp before) below
      constructor
      · intro _reached
        exact (pins index small).2
      · intro unreached
        refine absurd ⟨area, Nat.le_add_right _ _, ?_⟩ unreached
        intro page pageInside pageLow pageHigh
        obtain ⟨earlier, earlierSmall, rfl⟩ := indexed page
          ((vma.mem_pageAddrs_iff page).mp pageInside).2.2 pageLow (by omega)
        exact (pins earlier earlierSmall).1
  · have same : Reached faultable vma nstart address ↔
        Reached faultable vma (nstart + pageSize * pinned) address := by
      constructor
      · rintro ⟨_above, pages⟩
        exact ⟨Nat.not_lt.mp below, fun page pageInside pageLow pageHigh =>
          pages page pageInside (by omega) pageHigh⟩
      · rintro ⟨above, pages⟩
        refine ⟨by omega, ?_⟩
        intro page pageInside pageLow pageHigh
        by_cases first : page < nstart + pageSize * pinned
        · obtain ⟨index, small, rfl⟩ := indexed page
            ((vma.mem_pageAddrs_iff page).mp pageInside).2.2 pageLow first
          exact (pins index small).1
        · exact pages page pageInside (Nat.not_lt.mp first) pageHigh
    rw [same]
    constructor
    · exact reachedLater
    · intro unreached
      exact (keptLater unreached).trans (unpinned address (Or.inr (Nat.not_lt.mp below)))

theorem mmPopulateLoop_populates (gup : GetUserPages) (faultable : Nat → Bool)
    (faults : gup.Faults faultable) (mm : Mm) (index : Nat) (vma : Vma)
    (found : mm.mmap[index]? = some vma) (fuel pages call nstart current : Nat) (locked : Bool)
    (table : PageTable) (rest : nstart + pages * pageSize = vma.vmEnd)
    (low : vma.vmStart ≤ nstart) (holds : locked = true → current = index)
    (enough : pages < fuel) :
    ∃ ret table', mmPopulateLoop gup mm vma.vmEnd true fuel call nstart current locked table =
        some (ret, table') ∧ Populates faultable vma nstart table table' := by
  induction fuel generalizing pages call nstart current locked table with
  | zero => omega
  | succ fuel ih =>
      by_cases within : nstart < vma.vmEnd
      case neg =>
        have past := Nat.not_lt.mp within
        exact ⟨0, table, mmPopulateLoop_past gup mm vma.vmEnd true (fuel + 1) call nstart current locked
          table (Nat.succ_pos fuel) past, populates_end faultable vma nstart table past⟩
      case pos =>
        have startAligned := vma.startAligned
        have endAligned := vma.endAligned
        have member : nstart ∈ vma.pageAddrs := by
          rw [vma.mem_pageAddrs_iff]
          simp only [pageSize] at *
          omega
        have wanted : (vma.vmEnd - nstart) / pageSize = pages := by
          simp only [pageSize] at *
          omega
        have positive : 0 < pages := by
          simp only [pageSize] at *
          omega
        rw [mmPopulateLoop_round gup mm index vma found fuel call nstart current locked table low
          within holds (by omega)]
        by_cases skipped : (vma.vmFlags.io || vma.vmFlags.pfnmap) = true
        case pos =>
          rw [if_pos skipped]
          refine ⟨0, table, rfl, populates_skipped faultable vma nstart table ?_⟩
          intro area
          rw [Vma.populated, skipped] at area
          cases area
        case neg =>
          rw [if_neg skipped]
          have area : vma.populated := Bool.eq_false_iff.mpr skipped
          obtain ⟨flags, asked⟩ : ∃ flags, populateVmaPageRange gup call vma nstart vma.vmEnd table =
              gup.run call vma nstart pages flags table := by
            rw [populateVmaPageRange, wanted]
            exact ⟨_, rfl⟩
          rw [asked]
          dsimp only
          have unpinned := faults.unpinned call vma nstart pages flags table
          cases firstPage : faultable nstart with
          | false =>
              have failed := faults.fails call vma nstart pages flags table positive firstPage
              rw [Int.toNat_of_nonpos (Int.le_of_lt failed), Nat.mul_zero] at unpinned
              have same : (gup.run call vma nstart pages flags table).pte = table := by
                funext address
                apply unpinned
                omega
              rw [if_pos failed, same]
              exact ⟨0, table, rfl, populates_stuck faultable vma nstart table member firstPage⟩
          | true =>
              obtain ⟨pinned, some, notMore, ret, pins⟩ := faults.pins call vma nstart pages flags
                table positive ((vma.mem_pageAddrs_iff nstart).mp member).2.2 firstPage
              rw [ret, Int.toNat_natCast] at unpinned
              rw [ret, if_neg (Int.not_lt.mpr (Int.natCast_nonneg pinned)), Int.toNat_natCast]
              obtain ⟨last, table', ran, later⟩ := ih (pages - pinned) (call + 1) (nstart + pinned * pageSize)
                index (gup.run call vma nstart pages flags table).locked
                (gup.run call vma nstart pages flags table).pte
                (by simp only [pageSize] at *; omega) (by omega) (fun _ => rfl) (by omega)
              rw [Nat.mul_comm pinned] at later
              exact ⟨last, table', ran,
                populates_pinned faultable vma nstart pinned table _ table' member area pins unpinned
                  later⟩

theorem mmPopulateMod_populates (gup : GetUserPages) (faultable : Nat → Bool)
    (faults : gup.Faults faultable) (mm : Mm) (vma : Vma) (member : vma ∈ mm.mmap) (fuel : Nat)
    (enough : vma.pageCount < fuel) :
    ∃ ret table, mmPopulateMod gup fuel mm vma.vmStart (vma.vmEnd - vma.vmStart) true =
        some (ret, table) ∧ Populates faultable vma vma.vmStart mm.pte table := by
  obtain ⟨index, found⟩ := List.getElem?_of_mem member
  have nonempty := vma.nonempty
  have size := vma.size_eq
  rw [mmPopulateMod, Nat.add_sub_cancel' (Nat.le_of_lt nonempty)]
  exact mmPopulateLoop_populates gup faultable faults mm index vma found fuel vma.pageCount
    0 vma.vmStart 0 false mm.pte (by rw [Nat.mul_comm]; exact size.symm) (Nat.le_refl _)
    (fun impossible => by cases impossible) enough

inductive MultiPageModule where
  | bothMultiple (cp : BothMultiple.Params)
  | functimeKernelModule (cp : FunctimeKernelModule.Params)

def MultiPageModule.pages : MultiPageModule → List Int
  | .bothMultiple cp => cp.buff
  | .functimeKernelModule cp => cp.pageAddr

def MultiPageModule.shouldSkip : MultiPageModule → Bool
  | .bothMultiple cp => cp.shouldSkip
  | .functimeKernelModule cp => cp.shouldSkip

def MultiPageModule.callback : MultiPageModule → PageCallback
  | .bothMultiple cp => BothMultiple.printMem cp
  | .functimeKernelModule cp => FunctimeKernelModule.cacheabilityModifier cp

/-- The entry given to `pte_page` and `pte_pfn`, if the page is not skipped. -/
def takenAt (skip : Nat → Bool) (address : Nat) (state : PageTable × Pgprot) : List Pte :=
  if skip address then [] else [state.1 address]

def MultiPageModule.takenPtes (gup : GetUserPages) (fuel : Nat) (mm : Mm) (vma : Vma)
    (kernelModule : MultiPageModule) : Option (List Pte) :=
  match mmPopulateMod gup fuel mm vma.vmStart (vma.vmEnd - vma.vmStart) true with
  | none => none
  | some (_ret, table) =>
      some (applyToPageRangeLog vma.vmStart (vma.vmEnd - vma.vmStart)
        (takenAt (skipPage kernelModule.shouldSkip (listedAddrs kernelModule.pages vma)))
        (kernelModule.callback (listedAddrs kernelModule.pages vma)) (table, vma.vmPageProt))

private theorem MultiPageModule.callback_eq (kernelModule : MultiPageModule) (listed : List Nat) :
    kernelModule.callback listed = modifyPage (skipPage kernelModule.shouldSkip listed) := by
  cases kernelModule <;> rfl

/-- The entries taken are those of the pages not skipped, as the populate step left
them. -/
theorem MultiPageModule.takenPtes_some (kernelModule : MultiPageModule) (gup : GetUserPages)
    (faultable : Nat → Bool) (faults : gup.Faults faultable) (mm : Mm) (vma : Vma)
    (member : vma ∈ mm.mmap) (fuel : Nat) (enough : vma.pageCount < fuel) :
    ∃ taken table, kernelModule.takenPtes gup fuel mm vma = some taken ∧
      Populates faultable vma vma.vmStart mm.pte table ∧
      ∀ pte, pte ∈ taken ↔ ∃ address ∈ vma.pageAddrs,
        skipPage kernelModule.shouldSkip (listedAddrs kernelModule.pages vma) address = false ∧
          pte = table address := by
  obtain ⟨ret, table, populated, populates⟩ :=
    mmPopulateMod_populates gup faultable faults mm vma member fuel enough
  have log := applyToPageRangeLog_modifyPage
    (skipPage kernelModule.shouldSkip (listedAddrs kernelModule.pages vma)) vma.vmStart
    (vma.vmEnd - vma.vmStart)
    (takenAt (skipPage kernelModule.shouldSkip (listedAddrs kernelModule.pages vma)))
    (fun address pte _prot =>
      if skipPage kernelModule.shouldSkip (listedAddrs kernelModule.pages vma) address then []
      else [pte])
    (fun _address _table _prot => rfl) table vma.vmPageProt
  have ran : kernelModule.takenPtes gup fuel mm vma = some (vma.pageAddrs.flatMap (fun address =>
      if skipPage kernelModule.shouldSkip (listedAddrs kernelModule.pages vma) address then []
      else [table address])) := by
    rw [takenPtes, populated, kernelModule.callback_eq]
    exact congrArg some log
  refine ⟨_, table, ran, populates, ?_⟩
  intro pte
  rw [List.mem_flatMap]
  apply exists_congr
  intro address
  apply and_congr_right
  intro _inside
  cases skipPage kernelModule.shouldSkip (listedAddrs kernelModule.pages vma) address <;> simp

/-- Every entry taken is mapped exactly when each page that is not skipped was mapped
before, or the populate step reaches it. -/
theorem MultiPageModule.takenPtes_mapped_iff (kernelModule : MultiPageModule) (gup : GetUserPages)
    (faultable : Nat → Bool) (faults : gup.Faults faultable) (mapped : Pte → Bool)
    (presentMapped : ∀ pte : Pte, pte.present = true → mapped pte = true) (mm : Mm) (vma : Vma)
    (member : vma ∈ mm.mmap) (fuel : Nat) (enough : vma.pageCount < fuel) :
    (∃ taken, kernelModule.takenPtes gup fuel mm vma = some taken ∧
        ∀ pte ∈ taken, mapped pte = true) ↔
      ∀ address ∈ vma.pageAddrs,
        skipPage kernelModule.shouldSkip (listedAddrs kernelModule.pages vma) address = false →
          mapped (mm.pte address) = true ∨
            (vma.populated ∧ Reached faultable vma vma.vmStart address) := by
  obtain ⟨taken, table, ran, populates, entries⟩ :=
    kernelModule.takenPtes_some gup faultable faults mm vma member fuel enough
  have inTable (address : Nat) (inside : address ∈ vma.pageAddrs) :
      mapped (table address) = true ↔ mapped (mm.pte address) = true ∨
        (vma.populated ∧ Reached faultable vma vma.vmStart address) := by
    obtain ⟨installed, kept⟩ := populates address inside
    by_cases reached : vma.populated ∧ Reached faultable vma vma.vmStart address
    · exact iff_of_true (presentMapped _ (installed reached)) (Or.inr reached)
    · rw [kept reached]
      exact (or_iff_left reached).symm
  constructor
  · rintro ⟨list, same, all⟩ address inside chosen
    rw [ran] at same
    cases same
    apply (inTable address inside).mp
    exact all _ ((entries _).mpr ⟨address, inside, chosen, rfl⟩)
  · intro each
    refine ⟨taken, ran, ?_⟩
    intro pte listed
    obtain ⟨address, inside, chosen, rfl⟩ := (entries pte).mp listed
    exact (inTable address inside).mpr (each address inside chosen)

private theorem faultPte_present (shared : Nat → Bool) (frame : Nat) (vma : Vma) (write : Bool)
    (pte : Pte) : (faultPte shared frame vma write pte).present = true := by
  simp only [faultPte]
  split
  · rename_i present
    split
    · split
      · rfl
      · exact present
    · exact present
  · rfl

private theorem GetUserPages.serve_faults (shared : Nat → Bool) (frame : Nat → Nat) :
    (GetUserPages.serve shared frame).Faults (fun _page => true) := by
  refine ⟨?_, ?_, ?_⟩
  · intro call vma start nrPages flags table positive aligned _faultable
    refine ⟨nrPages, positive, Nat.le_refl _, rfl, ?_⟩
    intro index below
    have asked : start ≤ start + pageSize * index ∧
        start + pageSize * index < start + nrPages * pageSize ∧
        (start + pageSize * index) % pageSize = 0 := by
      refine ⟨?_, ?_, ?_⟩ <;> simp only [pageSize] at * <;> omega
    refine ⟨rfl, ?_⟩
    dsimp only [GetUserPages.serve]
    rw [if_pos asked]
    exact faultPte_present shared _ vma flags.write _
  · intro call vma start nrPages flags table _positive impossible
    cases impossible
  · intro call vma start nrPages flags table address outside
    apply (GetUserPages.serve shared frame).outside_kept
    have pinned :
        ((GetUserPages.serve shared frame).run call vma start nrPages flags table).ret.toNat =
          nrPages := Int.toNat_natCast nrPages
    rw [pinned, Nat.mul_comm] at outside
    omega

def GetUserPages.refuse : GetUserPages where
  run := fun _call _vma _start _nrPages _flags table => { ret := -14, locked := true, pte := table }
  shared := fun _pfn => false
  present_kept := fun _call _vma _start _nrPages _flags _table _address _present _unfaulted => rfl
  owned_kept := fun _call _vma _start _nrPages _flags _table _address present _owned =>
    ⟨present, rfl, rfl⟩
  outside_kept := fun _call _vma _start _nrPages _flags _table _address _outside => rfl

private theorem GetUserPages.refuse_faults : GetUserPages.refuse.Faults (fun _page => false) := by
  refine ⟨?_, ?_, ?_⟩
  · intro call vma start nrPages flags table _positive _aligned impossible
    cases impossible
  · intro call vma start nrPages flags table _positive _refused
    exact Int.negSucc_lt_zero 13
  · intro call vma start nrPages flags table address _outside
    rfl

def absentMm : Mm :=
  { sampleMm with
    pte := fun address => pfnPte (address / pageSize) { sampleProt with present := false } }

def sampleReserved : Vma :=
  { sampleHeap with
    vmFlags := { sampleHeap.vmFlags with read := false, write := false } }

def reservedMm : Mm :=
  { absentMm with
    mmap := [sampleReserved]
    sorted := List.pairwise_singleton _ _ }

theorem MultiPageModule.takenPtes_mapped_iff_sample :
    ∃ taken, MultiPageModule.takenPtes (.faultIn id) 8 absentMm sampleHeap
        (.functimeKernelModule ⟨[0], [2], true, 7⟩) = some taken ∧
      ∀ pte ∈ taken, pte.present = true :=
  (MultiPageModule.takenPtes_mapped_iff (.functimeKernelModule ⟨[0], [2], true, 7⟩) (.faultIn id)
    (fun _page => true) (GetUserPages.serve_faults _ id) Pte.present (fun _pte present => present)
    absentMm sampleHeap List.mem_cons_self 8 (by decide)).mpr
    (fun _address inside _chosen => Or.inr ⟨rfl, ((sampleHeap.mem_pageAddrs_iff _).mp inside).1,
      fun _page _inside _low _high => rfl⟩)

theorem MultiPageModule.takes_absent_entry :
    ∃ taken, MultiPageModule.takenPtes .refuse 8 reservedMm sampleReserved
        (.functimeKernelModule ⟨[0], [2], true, 7⟩) = some taken ∧
      ∃ pte ∈ taken, pte.present = false := by
  obtain ⟨taken, table, ran, populates, entries⟩ :=
    MultiPageModule.takenPtes_some (.functimeKernelModule ⟨[0], [2], true, 7⟩) .refuse
      (fun _page => false) GetUserPages.refuse_faults reservedMm sampleReserved List.mem_cons_self 8
      (by decide)
  have inside : 0x11000 ∈ sampleReserved.pageAddrs := by decide
  refine ⟨taken, ran, table 0x11000, (entries _).mpr ⟨0x11000, inside, by decide, rfl⟩, ?_⟩
  rw [(populates 0x11000 inside).2]
  · rfl
  · rintro ⟨_area, _above, pages⟩
    cases pages 0x11000 inside (by decide) (Nat.le_refl _)

end BlackboxProfiling
