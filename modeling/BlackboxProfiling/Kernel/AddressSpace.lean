import BlackboxProfiling.AddressWalk
import Mathlib.Data.List.Pairwise

/-!
Address spaces as the kernel modules see them on the 32-bit target.

An area carries the proofs that it is nonempty, page-aligned and below the top
of the address space; the areas of a process are sorted and disjoint. Page table
entries keep the frame number and the protection flags apart, so `pfn_pte` and
`pgprot_noncached` are record operations.
-/

namespace BlackboxProfiling

open AddressWalk

def pageSize : Nat := 4096

inductive MemType where
  | uncached
  | bufferable
  | writethrough
  | writeback
  | writealloc
  deriving DecidableEq, Repr

def MemType.cacheable : MemType → Bool
  | .uncached | .bufferable => false
  | .writethrough | .writeback | .writealloc => true

structure Pgprot where
  memType : MemType
  present : Bool
  young : Bool
  dirty : Bool
  rdonly : Bool
  user : Bool
  xn : Bool
  deriving DecidableEq, Repr

def pgprotNoncached (prot : Pgprot) : Pgprot := { prot with memType := .uncached }

theorem pgprotNoncached_idempotent (prot : Pgprot) :
    pgprotNoncached (pgprotNoncached prot) = pgprotNoncached prot := rfl

structure Pte where
  pfn : Nat
  prot : Pgprot
  deriving DecidableEq, Repr

def pfnPte (pfn : Nat) (prot : Pgprot) : Pte := ⟨pfn, prot⟩

def ptePfn (pte : Pte) : Nat := pte.pfn

def Pte.present (pte : Pte) : Bool := pte.prot.present

def Pte.cacheable (pte : Pte) : Bool := pte.prot.memType.cacheable

def pteNone : Pte := ⟨0, ⟨.uncached, false, false, false, false, false, false⟩⟩

abbrev PageTable := Nat → Pte

@[simp] theorem pfnPte_noncached_cacheable (pfn : Nat) (prot : Pgprot) :
    (pfnPte pfn (pgprotNoncached prot)).cacheable = false := rfl

structure VmFlags where
  read : Bool
  write : Bool
  exec : Bool
  shared : Bool
  io : Bool
  pfnmap : Bool
  deriving DecidableEq, Repr

/-- A `vm_area_struct`; `vmFile` says whether a file backs the area. -/
structure Vma where
  vmStart : Nat
  vmEnd : Nat
  vmPageProt : Pgprot
  vmFlags : VmFlags
  vmFile : Bool
  nonempty : vmStart < vmEnd
  bounded : vmEnd < 0x100000000
  startAligned : vmStart % pageSize = 0
  endAligned : vmEnd % pageSize = 0
  deriving DecidableEq

def Vma.pageCount (vma : Vma) : Nat := (vma.vmEnd - vma.vmStart) / pageSize

def pageAddrs (start size : Nat) : List Nat := List.range' start (size / pageSize) pageSize

def Vma.pageAddrs (vma : Vma) : List Nat :=
  BlackboxProfiling.pageAddrs vma.vmStart (vma.vmEnd - vma.vmStart)

theorem pageAddrs_nodup (start size : Nat) : (pageAddrs start size).Nodup :=
  List.nodup_range' pageSize (by decide)

theorem Vma.mem_pageAddrs (vma : Vma) (address : Nat) :
    address ∈ vma.pageAddrs ↔ ∃ index < vma.pageCount, address = vma.vmStart + pageSize * index :=
  List.mem_range'

theorem Vma.size_eq (vma : Vma) : vma.vmEnd = vma.vmStart + pageSize * vma.pageCount := by
  have nonempty := vma.nonempty
  have startAligned := vma.startAligned
  have endAligned := vma.endAligned
  simp only [pageCount, pageSize] at *
  omega

theorem Vma.pageCount_pos (vma : Vma) : 0 < vma.pageCount := by
  have nonempty := vma.nonempty
  have size := vma.size_eq
  rcases Nat.eq_zero_or_pos vma.pageCount with empty | positive
  · rw [empty] at size
    omega
  · exact positive

theorem Vma.mem_pageAddrs_iff (vma : Vma) (address : Nat) :
    address ∈ vma.pageAddrs ↔
      vma.vmStart ≤ address ∧ address < vma.vmEnd ∧ address % pageSize = 0 := by
  have startAligned := vma.startAligned
  have size := vma.size_eq
  rw [vma.mem_pageAddrs]
  constructor
  · rintro ⟨index, inside, rfl⟩
    simp only [pageSize] at *
    omega
  · rintro ⟨low, high, aligned⟩
    refine ⟨(address - vma.vmStart) / pageSize, ?_, ?_⟩ <;> simp only [pageSize] at * <;> omega

def tableSpan : Nat := 0x200000

structure Mm where
  mmap : List Vma
  startBrk : Nat
  brk : Nat
  tables : Nat → Bool
  pte : PageTable
  sorted : mmap.Pairwise (fun left right => left.vmEnd ≤ right.vmStart)
  brkOrdered : startBrk ≤ brk

/-- A second-level table holds the entry of the address, as it does in any case when the
entry has been set. -/
def Mm.hasTable (mm : Mm) (address : Nat) : Bool :=
  mm.tables (address / tableSpan) || decide (mm.pte address ≠ pteNone)

theorem Mm.hasTable_of_set (mm : Mm) (address : Nat) (set : mm.pte address ≠ pteNone) :
    mm.hasTable address = true :=
  Bool.or_eq_true_iff.mpr (Or.inr (decide_eq_true set))

theorem Mm.pte_of_noTable (mm : Mm) (address : Nat) (missing : mm.hasTable address = false) :
    mm.pte address = pteNone := by
  by_contra set
  rw [mm.hasTable_of_set address set] at missing
  cases missing

/-- The test every module uses for the heap area. -/
def heapTest (mm : Mm) (vma : Vma) : Bool :=
  decide (vma.vmStart ≤ mm.brk) && decide (mm.startBrk ≤ vma.vmEnd)

def Vma.setPageProt (vma : Vma) (prot : Pgprot) : Vma := { vma with vmPageProt := prot }

def setProtAt (start : Nat) (prot : Pgprot) (areas : List Vma) : List Vma :=
  areas.map (fun vma => if vma.vmStart = start then vma.setPageProt prot else vma)

theorem Vma.protAt_vmStart (start : Nat) (prot : Pgprot) (vma : Vma) :
    (if vma.vmStart = start then vma.setPageProt prot else vma).vmStart = vma.vmStart := by
  split <;> rfl

theorem Vma.protAt_vmEnd (start : Nat) (prot : Pgprot) (vma : Vma) :
    (if vma.vmStart = start then vma.setPageProt prot else vma).vmEnd = vma.vmEnd := by
  split <;> rfl

private theorem setProtAt_sorted (start : Nat) (prot : Pgprot) (areas : List Vma)
    (sorted : areas.Pairwise (fun left right => left.vmEnd ≤ right.vmStart)) :
    (setProtAt start prot areas).Pairwise (fun left right => left.vmEnd ≤ right.vmStart) := by
  apply List.pairwise_map.mpr
  apply sorted.imp
  intro left right ordered
  rw [Vma.protAt_vmStart, Vma.protAt_vmEnd]
  exact ordered

def Mm.store (mm : Mm) (start : Nat) (table : PageTable) (prot : Pgprot) : Mm :=
  { mm with
    mmap := setProtAt start prot mm.mmap
    pte := table
    sorted := setProtAt_sorted start prot mm.mmap mm.sorted }

@[simp] theorem Mm.store_pte (mm : Mm) (start : Nat) (table : PageTable) (prot : Pgprot) :
    (mm.store start table prot).pte = table := rfl

theorem Mm.areas_separated (mm : Mm) (left right : Vma) (leftMember : left ∈ mm.mmap)
    (rightMember : right ∈ mm.mmap) (different : left ≠ right) :
    left.vmEnd ≤ right.vmStart ∨ right.vmEnd ≤ left.vmStart := by
  let separated : Vma → Vma → Prop := fun first second =>
    first.vmEnd ≤ second.vmStart ∨ second.vmEnd ≤ first.vmStart
  have symmetric : Std.Symm separated := ⟨fun _first _second holds => holds.symm⟩
  have ordered : mm.mmap.Pairwise separated := mm.sorted.imp Or.inl
  exact ordered.forall leftMember rightMember different

theorem Mm.separated_at (mm : Mm) (left right : Nat) (leftVma rightVma : Vma)
    (atLeft : mm.mmap[left]? = some leftVma) (atRight : mm.mmap[right]? = some rightVma)
    (different : left ≠ right) :
    leftVma.vmEnd ≤ rightVma.vmStart ∨ rightVma.vmEnd ≤ leftVma.vmStart := by
  obtain ⟨leftInside, rfl⟩ := List.getElem?_eq_some_iff.mp atLeft
  obtain ⟨rightInside, rfl⟩ := List.getElem?_eq_some_iff.mp atRight
  have ordered := List.pairwise_iff_getElem.mp mm.sorted
  rcases Nat.lt_or_gt_of_ne different with before | after
  · exact Or.inl (ordered left right leftInside rightInside before)
  · exact Or.inr (ordered right left rightInside leftInside after)

theorem setProtAt_self (start : Nat) (prot : Pgprot) (areas : List Vma) (index : Nat) (vma : Vma)
    (found : areas[index]? = some vma) (here : vma.vmStart = start) :
    (setProtAt start prot areas)[index]? = some (vma.setPageProt prot) := by
  rw [setProtAt, List.getElem?_map, found, Option.map_some, if_pos here]

theorem setProtAt_other (start : Nat) (prot : Pgprot) (areas : List Vma) (index : Nat) (vma : Vma)
    (found : areas[index]? = some vma) (elsewhere : vma.vmStart ≠ start) :
    (setProtAt start prot areas)[index]? = some vma := by
  rw [setProtAt, List.getElem?_map, found, Option.map_some, if_neg elsewhere]

theorem setProtAt_length (start : Nat) (prot : Pgprot) (areas : List Vma) :
    (setProtAt start prot areas).length = areas.length :=
  List.length_map _

def applyToPageRange {σ : Type} (start size : Nat) (callback : Nat → σ → Int × σ)
    (state : σ) : Int × σ :=
  walk callback (pageAddrs start size) state

def applyToPageRangeLog {σ ω : Type} (start size : Nat) (emit : Nat → σ → List ω)
    (callback : Nat → σ → Int × σ) (state : σ) : List ω :=
  (applyToPageRange start size (logged emit callback) (state, [])).2.2

theorem applyToPageRangeLog_eq {σ ω : Type} (start size : Nat) (emit : Nat → σ → List ω)
    (callback : Nat → σ → Int × σ) (state : σ) :
    applyToPageRangeLog start size emit callback state =
      walkLog emit callback (pageAddrs start size) state := by
  rw [applyToPageRangeLog, applyToPageRange, walk_logged]
  rfl

end BlackboxProfiling
