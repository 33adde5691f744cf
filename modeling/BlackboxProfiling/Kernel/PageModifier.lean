import BlackboxProfiling.Kernel.Populate

/-!
The page callback and the work on one area that the multi-page modules share:
fault the area in, turn page numbers into addresses, and let the callback decide
from that list whether to leave a page alone or to rebuild its entry from the
protection of the area, which it makes noncacheable on the way.
-/

namespace BlackboxProfiling

open AddressWalk

def pageAddr (vmStart : Nat) (k : Int) : Nat :=
  (((vmStart : Int) + (k - 1) * pageSize) % 0x100000000).toNat

theorem pageAddr_inRange (vma : Vma) (k : Int) (positive : 1 ≤ k) (inRange : k ≤ vma.pageCount) :
    (pageAddr vma.vmStart k : Int) = vma.vmStart + (k - 1) * pageSize := by
  have size := vma.size_eq
  have bounded := vma.bounded
  simp only [pageAddr, pageSize] at *
  omega

theorem pageAddr_mem (vma : Vma) (k : Int) (positive : 1 ≤ k) (inRange : k ≤ vma.pageCount) :
    pageAddr vma.vmStart k ∈ vma.pageAddrs := by
  have address := pageAddr_inRange vma k positive inRange
  rw [vma.mem_pageAddrs]
  refine ⟨(k - 1).toNat, ?_, ?_⟩ <;> simp only [pageSize] at * <;> omega

theorem pageAddr_injective (vma : Vma) (left right : Int) (leftPositive : 1 ≤ left)
    (leftInRange : left ≤ vma.pageCount) (rightPositive : 1 ≤ right)
    (rightInRange : right ≤ vma.pageCount)
    (same : pageAddr vma.vmStart left = pageAddr vma.vmStart right) : left = right := by
  have atLeft := pageAddr_inRange vma left leftPositive leftInRange
  have atRight := pageAddr_inRange vma right rightPositive rightInRange
  simp only [pageSize] at *
  omega

theorem pageAddr_zero_notMem (vma : Vma) : pageAddr vma.vmStart 0 ∉ vma.pageAddrs := by
  intro inside
  have startAligned := vma.startAligned
  have endAligned := vma.endAligned
  have bounded := vma.bounded
  rw [vma.mem_pageAddrs_iff] at inside
  simp only [pageAddr, pageSize] at *
  omega

theorem pageAddr_start_injective (left right : Vma) (k : Int)
    (same : pageAddr left.vmStart k = pageAddr right.vmStart k) : left.vmStart = right.vmStart := by
  have leftBounded := left.bounded
  have leftNonempty := left.nonempty
  have rightBounded := right.bounded
  have rightNonempty := right.nonempty
  simp only [pageAddr, pageSize] at *
  omega

/-- The flag after the search loop: flipped at the first match, then `break`. -/
def searchSkip (shouldSkip : Bool) (address : Nat) : List Nat → Bool
  | [] => shouldSkip
  | listed :: rest => if address = listed then !shouldSkip else searchSkip shouldSkip address rest

theorem searchSkip_eq (shouldSkip : Bool) (address : Nat) (listed : List Nat) :
    searchSkip shouldSkip address listed =
      if address ∈ listed then !shouldSkip else shouldSkip := by
  induction listed with
  | nil => rfl
  | cons head rest ih =>
      by_cases same : address = head
      · simp only [searchSkip, same, if_true, List.mem_cons_self]
      · simp only [searchSkip, same, if_false, ih, List.mem_cons, false_or]

def modifyPage (skip : Nat → Bool) (address : Nat) (state : PageTable × Pgprot) :
    Int × (PageTable × Pgprot) :=
  if skip address then (0, state)
  else
    let vmPageProt := pgprotNoncached state.2
    let pfn := ptePfn (state.1 address)
    let newpte := pfnPte pfn vmPageProt
    (0, (Function.update state.1 address newpte, vmPageProt))

def modifiedTable (skip : Nat → Bool) (addresses : List Nat) (prot : Pgprot)
    (table : PageTable) : PageTable :=
  fun address =>
    if address ∈ addresses ∧ skip address = false then
      pfnPte (ptePfn (table address)) (pgprotNoncached prot)
    else table address

def modifiedProt (skip : Nat → Bool) (addresses : List Nat) (prot : Pgprot) : Pgprot :=
  if addresses.any (fun address => !skip address) then pgprotNoncached prot else prot

private theorem modifyPage_eq_selectStep (skip : Nat → Bool) :
    modifyPage skip =
      selectStep (fun address => !skip address) pgprotNoncached
        (fun old prot => pfnPte (ptePfn old) prot) := by
  funext address state
  cases skipped : skip address <;> simp [modifyPage, selectStep, skipped]

/-- Outcome of the page walk, whatever earlier pages did to `vm_page_prot`. -/
theorem applyToPageRange_modifyPage (skip : Nat → Bool) (start size : Nat)
    (table : PageTable) (prot : Pgprot) :
    applyToPageRange start size (modifyPage skip) (table, prot) =
      (0, (modifiedTable skip (pageAddrs start size) prot table,
        modifiedProt skip (pageAddrs start size) prot)) := by
  rw [modifyPage_eq_selectStep, applyToPageRange,
    walk_selectStep _ _ _ pgprotNoncached_idempotent _ (pageAddrs_nodup start size)]
  have sameTable :
      selectTable (fun address => !skip address) (fun old prot => pfnPte (ptePfn old) prot)
          (pageAddrs start size) (pgprotNoncached prot) table =
        modifiedTable skip (pageAddrs start size) prot table := by
    funext address
    simp only [selectTable, modifiedTable, Bool.not_eq_true']
  rw [sameTable]
  rfl

theorem applyToPageRangeLog_modifyPage {ω : Type} (skip : Nat → Bool) (start size : Nat)
    (emit : Nat → PageTable × Pgprot → List ω) (emitAt : Nat → Pte → Pgprot → List ω)
    (localEmit : ∀ address table prot,
      emit address (table, prot) = emitAt address (table address) (pgprotNoncached prot))
    (table : PageTable) (prot : Pgprot) :
    applyToPageRangeLog start size emit (modifyPage skip) (table, prot) =
      (pageAddrs start size).flatMap
        (fun address => emitAt address (table address) (pgprotNoncached prot)) := by
  rw [applyToPageRangeLog_eq, modifyPage_eq_selectStep]
  exact walkLog_selectStep _ _ _ pgprotNoncached_idempotent emit emitAt localEmit _
    (pageAddrs_nodup start size) table prot

@[simp] theorem modifiedTable_pfn (skip : Nat → Bool) (addresses : List Nat) (prot : Pgprot)
    (table : PageTable) (address : Nat) :
    (modifiedTable skip addresses prot table address).pfn = (table address).pfn := by
  unfold modifiedTable
  split <;> rfl

theorem modifiedTable_outside (skip : Nat → Bool) (addresses : List Nat) (prot : Pgprot)
    (table : PageTable) (address : Nat) (outside : address ∉ addresses) :
    modifiedTable skip addresses prot table address = table address :=
  if_neg (fun both => outside both.1)

theorem modifiedTable_skipped (skip : Nat → Bool) (addresses : List Nat) (prot : Pgprot)
    (table : PageTable) (address : Nat) (skipped : skip address = true) :
    modifiedTable skip addresses prot table address = table address :=
  if_neg (fun both => by rw [skipped] at both; cases both.2)

theorem modifiedTable_chosen (skip : Nat → Bool) (addresses : List Nat) (prot : Pgprot)
    (table : PageTable) (address : Nat) (member : address ∈ addresses)
    (chosen : skip address = false) :
    modifiedTable skip addresses prot table address =
      pfnPte (ptePfn (table address)) (pgprotNoncached prot) :=
  if_pos ⟨member, chosen⟩

theorem modifiedTable_cacheable (skip : Nat → Bool) (addresses : List Nat) (prot : Pgprot)
    (table : PageTable) (address : Nat) (member : address ∈ addresses)
    (cacheable : (table address).cacheable = true) :
    (modifiedTable skip addresses prot table address).cacheable = skip address := by
  cases skipped : skip address with
  | true => rw [modifiedTable_skipped skip addresses prot table address skipped, cacheable]
  | false =>
      rw [modifiedTable_chosen skip addresses prot table address member skipped,
        pfnPte_noncached_cacheable]

def listedAddrs (pages : List Int) (vma : Vma) : List Nat := pages.map (pageAddr vma.vmStart)

theorem mem_listedAddrs (pages : List Int) (vma : Vma) (address : Nat) :
    address ∈ listedAddrs pages vma ↔ ∃ k ∈ pages, pageAddr vma.vmStart k = address :=
  List.mem_map

def skipPage (shouldSkip : Bool) (listed : List Nat) (address : Nat) : Bool :=
  searchSkip shouldSkip address listed

/-- A page is rebuilt exactly when being listed agrees with the flag. -/
theorem skipPage_eq_false_iff (shouldSkip : Bool) (listed : List Nat) (address : Nat) :
    skipPage shouldSkip listed address = false ↔ (address ∈ listed ↔ shouldSkip = true) := by
  rw [skipPage, searchSkip_eq]
  cases shouldSkip <;> by_cases member : address ∈ listed <;> simp [member]

abbrev PageCallback := List Nat → Nat → PageTable × Pgprot → Int × (PageTable × Pgprot)

/-- Populate, list the addresses, walk every page of the area. -/
def changeArea (gup : GetUserPages) (fuel : Nat) (callback : PageCallback) (pages : List Int)
    (mm : Mm) (vma : Vma) : Option Mm :=
  match mmPopulateMod gup fuel mm vma.vmStart (vma.vmEnd - vma.vmStart) true with
  | none => none
  | some (_ret, table) =>
      let walked := applyToPageRange vma.vmStart (vma.vmEnd - vma.vmStart)
        (callback (listedAddrs pages vma)) (table, vma.vmPageProt)
      some (mm.store vma.vmStart walked.2.1 walked.2.2)

def changedMm (shouldSkip : Bool) (pages : List Int) (mm : Mm) (vma : Vma)
    (table : PageTable) : Mm :=
  mm.store vma.vmStart
    (modifiedTable (skipPage shouldSkip (listedAddrs pages vma)) vma.pageAddrs vma.vmPageProt table)
    (modifiedProt (skipPage shouldSkip (listedAddrs pages vma)) vma.pageAddrs vma.vmPageProt)

theorem changeArea_eq (gup : GetUserPages) (fuel : Nat) (shouldSkip : Bool) (pages : List Int)
    (mm mm' : Mm) (vma : Vma)
    (changed : changeArea gup fuel (fun listed => modifyPage (skipPage shouldSkip listed)) pages
      mm vma = some mm') :
    ∃ ret table,
      mmPopulateMod gup fuel mm vma.vmStart (vma.vmEnd - vma.vmStart) true = some (ret, table) ∧
        mm' = changedMm shouldSkip pages mm vma table := by
  simp only [changeArea] at changed
  split at changed
  · cases changed
  · rename_i ret table populated
    rw [applyToPageRange_modifyPage] at changed
    exact ⟨ret, table, populated, (Option.some.inj changed).symm⟩

theorem changeArea_returns (gup : GetUserPages) (progresses : gup.Progresses) (fuel : Nat)
    (shouldSkip : Bool) (pages : List Int) (mm : Mm) (vma : Vma) (member : vma ∈ mm.mmap)
    (enough : vma.pageCount < fuel) :
    ∃ ret table,
      mmPopulateMod gup fuel mm vma.vmStart (vma.vmEnd - vma.vmStart) true = some (ret, table) ∧
        changeArea gup fuel (fun listed => modifyPage (skipPage shouldSkip listed)) pages mm vma =
          some (changedMm shouldSkip pages mm vma table) := by
  obtain ⟨ret, table, populated⟩ := mmPopulateMod_returns gup progresses mm vma member fuel enough
  refine ⟨ret, table, populated, ?_⟩
  simp only [changeArea, populated, applyToPageRange_modifyPage]
  rfl

theorem changeArea_more (gup : GetUserPages) (fuel more : Nat) (callback : PageCallback)
    (pages : List Int) (mm mm' : Mm) (vma : Vma) (atLeast : fuel ≤ more)
    (changed : changeArea gup fuel callback pages mm vma = some mm') :
    changeArea gup more callback pages mm vma = some mm' := by
  simp only [changeArea] at changed
  split at changed
  · cases changed
  · rename_i ret table populated
    have same := mmPopulateLoop_more gup mm _ true fuel more 0 vma.vmStart 0 false mm.pte _ atLeast
      populated
    rw [changeArea, mmPopulateMod, same]
    exact changed

def AreaKept (mm mm' : Mm) (index : Nat) (vma : Vma) : Prop :=
  mm'.mmap[index]? = some vma ∧ ∀ address ∈ vma.pageAddrs, mm'.pte address = mm.pte address

def AreaWalked (gup : GetUserPages) (shouldSkip : Bool) (pages : List Int) (mm mm' : Mm)
    (index : Nat) (vma : Vma) (table : PageTable) : Prop :=
  (∀ address ∈ vma.pageAddrs,
    (mm.pte address).present = true → gup.Keeps vma (mm.pte address) (table address)) ∧
  mm'.mmap[index]? = some (vma.setPageProt
    (modifiedProt (skipPage shouldSkip (listedAddrs pages vma)) vma.pageAddrs vma.vmPageProt)) ∧
  ∀ address ∈ vma.pageAddrs, mm'.pte address =
    modifiedTable (skipPage shouldSkip (listedAddrs pages vma)) vma.pageAddrs vma.vmPageProt table
      address

theorem AreaKept.trans (first second third : Mm) (index : Nat) (vma : Vma)
    (earlier : AreaKept first second index vma) (later : AreaKept second third index vma) :
    AreaKept first third index vma :=
  ⟨later.1, fun address inside => (later.2 address inside).trans (earlier.2 address inside)⟩

theorem AreaWalked.of_kept_before (gup : GetUserPages) (shouldSkip : Bool) (pages : List Int)
    (first second third : Mm) (index : Nat) (vma : Vma) (table : PageTable)
    (earlier : AreaKept first second index vma)
    (later : AreaWalked gup shouldSkip pages second third index vma table) :
    AreaWalked gup shouldSkip pages first third index vma table := by
  obtain ⟨present, area, entries⟩ := later
  refine ⟨?_, area, entries⟩
  intro address inside here
  have kept := earlier.2 address inside
  rw [← kept] at here ⊢
  exact present address inside here

theorem AreaWalked.of_kept_after (gup : GetUserPages) (shouldSkip : Bool) (pages : List Int)
    (first second third : Mm) (index : Nat) (vma : Vma) (prot : Pgprot) (table : PageTable)
    (earlier : AreaWalked gup shouldSkip pages first second index vma table)
    (later : AreaKept second third index (vma.setPageProt prot))
    (walkedTo : second.mmap[index]? = some (vma.setPageProt prot)) :
    AreaWalked gup shouldSkip pages first third index vma table := by
  obtain ⟨present, area, entries⟩ := earlier
  refine ⟨present, ?_, ?_⟩
  · rw [later.1, ← walkedTo, area]
  · intro address inside
    rw [later.2 address inside, entries address inside]

theorem changeArea_walked (gup : GetUserPages) (fuel : Nat) (shouldSkip : Bool)
    (pages : List Int) (mm mm' : Mm) (index : Nat) (vma : Vma)
    (found : mm.mmap[index]? = some vma)
    (changed : changeArea gup fuel (fun listed => modifyPage (skipPage shouldSkip listed)) pages
      mm vma = some mm') :
    ∃ table, AreaWalked gup shouldSkip pages mm mm' index vma table := by
  obtain ⟨ret, table, populated, rfl⟩ := changeArea_eq gup fuel shouldSkip pages mm mm' vma changed
  refine ⟨table, ?_, ?_, fun _address _inside => rfl⟩
  · intro address _inside present
    exact mmPopulateMod_keeps gup fuel mm vma (List.mem_of_getElem? found) ret table populated
      address present
  · exact setProtAt_self vma.vmStart _ mm.mmap index vma found rfl

theorem changeArea_kept (gup : GetUserPages) (fuel : Nat) (shouldSkip : Bool)
    (pages : List Int) (mm mm' : Mm) (index other : Nat) (vma otherVma : Vma)
    (found : mm.mmap[index]? = some vma) (atOther : mm.mmap[other]? = some otherVma)
    (different : other ≠ index)
    (changed : changeArea gup fuel (fun listed => modifyPage (skipPage shouldSkip listed)) pages
      mm vma = some mm') :
    AreaKept mm mm' other otherVma := by
  obtain ⟨ret, table, populated, rfl⟩ := changeArea_eq gup fuel shouldSkip pages mm mm' vma changed
  have separated := mm.separated_at other index otherVma vma atOther found different
  have otherNonempty := otherVma.nonempty
  have nonempty := vma.nonempty
  constructor
  · exact setProtAt_other vma.vmStart _ mm.mmap other otherVma atOther (by omega)
  · intro address inside
    rw [otherVma.mem_pageAddrs_iff] at inside
    have outside : address ∉ vma.pageAddrs := by
      rw [vma.mem_pageAddrs_iff]
      omega
    rw [changedMm, Mm.store_pte, modifiedTable_outside _ _ _ _ _ outside]
    exact mmPopulateMod_outside gup fuel mm vma (List.mem_of_getElem? found) ret table populated
      address outside

theorem changeArea_length (gup : GetUserPages) (fuel : Nat) (shouldSkip : Bool)
    (pages : List Int) (mm mm' : Mm) (vma : Vma)
    (changed : changeArea gup fuel (fun listed => modifyPage (skipPage shouldSkip listed)) pages
      mm vma = some mm') :
    mm'.mmap.length = mm.mmap.length := by
  obtain ⟨ret, table, populated, rfl⟩ := changeArea_eq gup fuel shouldSkip pages mm mm' vma changed
  exact setProtAt_length vma.vmStart _ mm.mmap

end BlackboxProfiling
