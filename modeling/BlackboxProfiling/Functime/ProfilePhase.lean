import BlackboxProfiling.Kernel.PageModifier
import BlackboxProfiling.Kernel.Processes

/-!
The first mode of `functime`: a do-while loop over `count` runs the tracee with
one page number in `kernel_params.buff` and stores one `page_stats` entry per
round. `heap_size` is read from the maps file during the first round, before the
loop condition is tested for the first time.
-/

namespace BlackboxProfiling.Functime

structure PageStats where
  cycles : Int
  pageNumber : Int
  deriving DecidableEq, Repr

structure Round where
  buff : List Int
  page : PageStats
  deriving DecidableEq, Repr

/-- `samples` gives the value of the global of that name when a round ends. -/
def profileLoop (samples : Nat → Int) (sampleSize : Int) (heapSize count : Nat) : List Round :=
  let round : Round :=
    { buff := [(count : Int)]
      page := { cycles := (samples count).tdiv sampleSize, pageNumber := count } }
  if count + 1 < heapSize then round :: profileLoop samples sampleSize heapSize (count + 1)
  else [round]
termination_by heapSize - count

def profilePhase (samples : Nat → Int) (sampleSize : Int) (heapSize : Nat) : List Round :=
  profileLoop samples sampleSize heapSize 0

private theorem profileLoop_buff (samples : Nat → Int) (sampleSize : Int) (heapSize count : Nat)
    (below : count < heapSize) :
    (profileLoop samples sampleSize heapSize count).map Round.buff =
      (List.range' count (heapSize - count)).map (fun number : Nat => [(number : Int)]) := by
  induction count using profileLoop.induct samples sampleSize heapSize with
  | case1 count more ih =>
      have shorter : heapSize - count = (heapSize - (count + 1)) + 1 := by omega
      rw [profileLoop, if_pos more, shorter, List.range'_succ, List.map_cons, List.map_cons, ih more]
  | case2 count more =>
      have single : heapSize - count = 1 := by omega
      rw [profileLoop, if_neg more, single]
      rfl

/-- The rounds send `0 .. n-1`, which the kernel takes for `1 .. n`. -/
theorem profilePhase_addrs (samples : Nat → Int) (sampleSize : Int) (vma : Vma) :
    (profilePhase samples sampleSize vma.pageCount).flatMap
        (fun round => listedAddrs round.buff vma) =
      (List.range vma.pageCount).map (fun number : Nat => pageAddr vma.vmStart number) := by
  have buffs := profileLoop_buff samples sampleSize vma.pageCount 0 vma.pageCount_pos
  rw [← List.flatMap_map Round.buff (fun buff => listedAddrs buff vma), profilePhase, buffs,
    Nat.sub_zero, ← List.range_eq_range', List.flatMap_map, List.map_eq_flatMap]
  rfl

/-- The rounds of the profiling phase do not cover the heap, for any heap: the
first of them addresses the page below it. -/
theorem profilePhase_not_perm (samples : Nat → Int) (sampleSize : Int) (vma : Vma) :
    ¬ ((profilePhase samples sampleSize vma.pageCount).flatMap
        (fun round => listedAddrs round.buff vma)).Perm vma.pageAddrs := by
  intro covers
  rw [profilePhase_addrs] at covers
  have firstRound : pageAddr vma.vmStart 0 ∈
      (List.range vma.pageCount).map (fun number : Nat => pageAddr vma.vmStart number) :=
    List.mem_map.mpr ⟨0, List.mem_range.mpr vma.pageCount_pos, rfl⟩
  exact pageAddr_zero_notMem vma (covers.mem_iff.mp firstRound)

theorem profilePhase_misses_last_page :
    (profilePhase (fun _round => 0) 1 sampleHeap.pageCount).flatMap
        (fun round => listedAddrs round.buff sampleHeap) = [0xf000, 0x10000, 0x11000] ∧
      ¬ ((profilePhase (fun _round => 0) 1 sampleHeap.pageCount).flatMap
        (fun round => listedAddrs round.buff sampleHeap)).Perm sampleHeap.pageAddrs := by
  have rounds : (profilePhase (fun _round => 0) 1 sampleHeap.pageCount).flatMap
      (fun round => listedAddrs round.buff sampleHeap) = [0xf000, 0x10000, 0x11000] := by
    rw [profilePhase_addrs]
    decide
  refine ⟨rounds, ?_⟩
  rw [rounds]
  decide

end BlackboxProfiling.Functime
