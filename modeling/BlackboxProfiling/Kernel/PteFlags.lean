import BlackboxProfiling.Kernel.CacheLines

/-!
What a page walk leaves of the flags of an entry. A module rebuilds the entry from
the protection of the area, so it keeps the frame and nothing else of the old one.
-/

namespace BlackboxProfiling

def Pgprot.withMemType (prot : Pgprot) (memType : MemType) : Pgprot := { prot with memType := memType }

def Pte.SameButMemType (before after : Pte) : Prop :=
  after.pfn = before.pfn ∧ after.prot.withMemType before.prot.memType = before.prot

instance (before after : Pte) : Decidable (before.SameButMemType after) :=
  inferInstanceAs (Decidable (after.pfn = before.pfn ∧
    after.prot.withMemType before.prot.memType = before.prot))

def PteWriter.switches (vma : Vma) (mm : Mm) (address : Nat) : PteWriter → Prop
  | .allCacheableExceptOne p => address = pageAddr vma.vmStart p ∧ mm.hasTable address = true
  | .allCacheableExceptOneSdVbs p => address = pageAddr vma.vmStart p ∧ mm.hasTable address = true
  | .allNoncacheableExceptOneSdVbs p => address ∈ vma.pageAddrs ∧ address ≠ pageAddr vma.vmStart p
  | .bothMultiple cp =>
      address ∈ vma.pageAddrs ∧ skipPage cp.shouldSkip (listedAddrs cp.buff vma) address = false
  | .functimeKernelModule cp =>
      address ∈ vma.pageAddrs ∧ skipPage cp.shouldSkip (listedAddrs cp.pageAddr vma) address = false

private theorem walk_switched (skip : Nat → Bool) (mm : Mm) (vma : Vma) (address : Nat)
    (member : address ∈ vma.pageAddrs) (chosen : skip address = false) :
    (applyToPageRange vma.vmStart (vma.vmEnd - vma.vmStart) (modifyPage skip)
      (mm.pte, vma.vmPageProt)).2.1 address =
      pfnPte (ptePfn (mm.pte address)) (pgprotNoncached vma.vmPageProt) := by
  rw [applyToPageRange_modifyPage]
  exact modifiedTable_chosen skip _ vma.vmPageProt mm.pte address member chosen

private theorem walk_kept (skip : Nat → Bool) (mm : Mm) (vma : Vma) (address : Nat)
    (kept : ¬ (address ∈ vma.pageAddrs ∧ skip address = false)) :
    (applyToPageRange vma.vmStart (vma.vmEnd - vma.vmStart) (modifyPage skip)
      (mm.pte, vma.vmPageProt)).2.1 address = mm.pte address := by
  rw [applyToPageRange_modifyPage]
  exact if_neg kept

private theorem PteWriter.tableAfter_switched (writer : PteWriter) (vma : Vma) (mm : Mm) (address : Nat)
    (chosen : writer.switches vma mm address) :
    writer.tableAfter vma mm address =
      pfnPte (ptePfn (mm.pte address)) (pgprotNoncached vma.vmPageProt) := by
  cases writer with
  | allCacheableExceptOne p =>
      obtain ⟨rfl, tabled⟩ := chosen
      exact AllCacheableExceptOne.setPage_switched p mm vma tabled
  | allCacheableExceptOneSdVbs p =>
      obtain ⟨rfl, tabled⟩ := chosen
      exact AllCacheableExceptOne.setPage_switched p mm vma tabled
  | allNoncacheableExceptOneSdVbs p =>
      exact walk_switched (fun addr => decide (addr = pageAddr vma.vmStart p)) mm vma address
        chosen.1 (decide_eq_false chosen.2)
  | bothMultiple cp => exact walk_switched _ mm vma address chosen.1 chosen.2
  | functimeKernelModule cp => exact walk_switched _ mm vma address chosen.1 chosen.2

private theorem PteWriter.tableAfter_kept (writer : PteWriter) (vma : Vma) (mm : Mm) (address : Nat)
    (left : ¬ writer.switches vma mm address) :
    writer.tableAfter vma mm address = mm.pte address := by
  cases writer with
  | allCacheableExceptOne p =>
      exact AllCacheableExceptOne.setPage_kept p mm vma address
        ((not_and_or.mp left).imp_right Bool.eq_false_iff.mpr)
  | allCacheableExceptOneSdVbs p =>
      exact AllCacheableExceptOne.setPage_kept p mm vma address
        ((not_and_or.mp left).imp_right Bool.eq_false_iff.mpr)
  | allNoncacheableExceptOneSdVbs p =>
      apply walk_kept (fun addr => decide (addr = pageAddr vma.vmStart p)) mm vma address
      intro both
      exact left ⟨both.1, of_decide_eq_false both.2⟩
  | bothMultiple cp => exact walk_kept _ mm vma address left
  | functimeKernelModule cp => exact walk_kept _ mm vma address left

/-- The walk changes memory types only exactly when every page it switches has the
flags of its area already. -/
theorem PteWriter.tableAfter_memType_iff (writer : PteWriter) (vma : Vma) (mm : Mm) :
    (∀ address, (mm.pte address).SameButMemType (writer.tableAfter vma mm address)) ↔
      ∀ address, writer.switches vma mm address →
        vma.vmPageProt.withMemType (mm.pte address).prot.memType = (mm.pte address).prot := by
  constructor
  · intro same address chosen
    have here := (same address).2
    rw [writer.tableAfter_switched vma mm address chosen] at here
    exact here
  · intro flags address
    by_cases chosen : writer.switches vma mm address
    · rw [writer.tableAfter_switched vma mm address chosen]
      exact ⟨rfl, flags address chosen⟩
    · rw [writer.tableAfter_kept vma mm address chosen]
      exact ⟨rfl, rfl⟩

def writtenMm : Mm :=
  { sampleMm with
    pte := Function.update sampleMm.pte 0x11000 (pfnPte 17 { sampleProt with dirty := true }) }

theorem PteWriter.walk_loses_dirty :
    writtenMm.pte 0x11000 = pfnPte 17 { sampleProt with dirty := true } ∧
      PteWriter.tableAfter sampleHeap writtenMm (.bothMultiple ⟨[2], true, 7⟩) 0x11000 =
        pfnPte 17 (pgprotNoncached sampleProt) ∧
      ¬ ∀ address, (writtenMm.pte address).SameButMemType
        (PteWriter.tableAfter sampleHeap writtenMm (.bothMultiple ⟨[2], true, 7⟩) address) := by
  have before : writtenMm.pte 0x11000 = pfnPte 17 { sampleProt with dirty := true } := rfl
  have after := PteWriter.tableAfter_switched (.bothMultiple ⟨[2], true, 7⟩) sampleHeap writtenMm
    0x11000 ⟨by decide, by decide⟩
  rw [before] at after
  refine ⟨before, after, ?_⟩
  intro same
  have here := same 0x11000
  rw [before, after] at here
  exact absurd here (by decide)

end BlackboxProfiling
