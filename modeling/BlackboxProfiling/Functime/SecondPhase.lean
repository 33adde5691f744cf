import BlackboxProfiling.ComparisonSort
import BlackboxProfiling.Functime.ProfilePhase

/-!
The second mode of `functime`: `qsort` orders the profiled pages by `cmpfunc`, and
run `i` sends the numbers of the first `i` of them. `cmpfunc` subtracts two ints,
which wraps when the cycles are far apart.
-/

namespace BlackboxProfiling.Functime

open ComparisonSort

def IsInt (value : Int) : Prop := -0x80000000 ≤ value ∧ value < 0x80000000

def subInt (left right : Int) : Int := (left - right).bmod 0x100000000

def cmpfunc (left right : PageStats) : Int := subInt left.cycles right.cycles

structure KernelParams where
  size : Nat
  buff : List Int
  shouldSkip : Bool
  deriving DecidableEq, Repr

/-- The inner loop fills `buff` up to an index; an entry behind the end of `page`
has no value. -/
def fillBuff (page : List PageStats) : Nat → Option (List Int)
  | 0 => some []
  | index + 1 =>
      match fillBuff page index, page[index]? with
      | some buff, some entry => some (buff ++ [entry.pageNumber])
      | _, _ => none

def secondLoop (page : List PageStats) : Nat → Option (List KernelParams)
  | 0 => some []
  | last + 1 =>
      match secondLoop page last, fillBuff page (last + 1) with
      | some runs, some buff => some (runs ++ [{ size := last + 1, buff := buff, shouldSkip := false }])
      | _, _ => none

def secondPhase (qsort : Sorter PageStats) (page : List PageStats) : Option (List KernelParams) :=
  secondLoop (qsort.run cmpfunc page) page.length

/-- Run `i` sends `i` distinct pages, one more than the run before, and none of
those it leaves out has strictly fewer cycles than one it sends. -/
def CheapestNested (page : List PageStats) (runs : List KernelParams) : Prop :=
  runs.length = page.length ∧
  ∀ (index : Nat) (run : KernelParams), runs[index]? = some run →
    run.size = index + 1 ∧ run.buff.length = index + 1 ∧ run.buff.Nodup ∧
    (∀ number ∈ run.buff, number ∈ page.map PageStats.pageNumber) ∧
    (∃ earlier number, ([] :: runs.map KernelParams.buff)[index]? = some earlier ∧
      run.buff = earlier ++ [number]) ∧
    (∀ inside ∈ page, ∀ outside ∈ page, inside.pageNumber ∈ run.buff →
      outside.pageNumber ∉ run.buff → inside.cycles ≤ outside.cycles)

theorem fillBuff_eq (page : List PageStats) (count : Nat) (within : count ≤ page.length) :
    fillBuff page count = some ((page.take count).map PageStats.pageNumber) := by
  induction count with
  | zero => rfl
  | succ count ih =>
      have inside : count < page.length := within
      rw [fillBuff, ih (Nat.le_of_lt within), List.getElem?_eq_getElem inside,
        List.take_succ_eq_append_getElem inside, List.map_append]
      rfl

def prefixRun (page : List PageStats) (index : Nat) : KernelParams :=
  { size := index + 1
    buff := (page.take (index + 1)).map PageStats.pageNumber
    shouldSkip := false }

private theorem secondLoop_eq (page : List PageStats) (last : Nat) (within : last ≤ page.length) :
    secondLoop page last = some ((List.range last).map (prefixRun page)) := by
  induction last with
  | zero => rfl
  | succ last ih =>
      rw [secondLoop, ih (Nat.le_of_succ_le within), fillBuff_eq page (last + 1) within,
        List.range_succ, List.map_append]
      rfl

private theorem secondPhase_eq (qsort : Sorter PageStats) (page : List PageStats) :
    secondPhase qsort page =
      some ((List.range page.length).map (prefixRun (qsort.run cmpfunc page))) := by
  have sameLength := (qsort.perm cmpfunc page).length_eq
  exact secondLoop_eq _ _ (Nat.le_of_eq sameLength.symm)

private theorem subInt_exact (left right : Int) (low : -0x80000000 ≤ left - right)
    (high : left - right < 0x80000000) : subInt left right = left - right := by
  unfold subInt
  rw [Int.bmod_eq_of_le] <;> omega

/-- Where no difference leaves the ints the comparison is the order of the cycles. -/
theorem cmpfunc_consistent (page : List PageStats)
    (close : ∀ left ∈ page, ∀ right ∈ page, left.cycles - right.cycles ≤ 0x7fffffff) :
    ConsistentOn cmpfunc page ∧
      ∀ left ∈ page, ∀ right ∈ page, cmpfunc left right = left.cycles - right.cycles := by
  have exact (left : PageStats) (leftMember : left ∈ page) (right : PageStats)
      (rightMember : right ∈ page) : cmpfunc left right = left.cycles - right.cycles := by
    have leftRight := close left leftMember right rightMember
    have rightLeft := close right rightMember left leftMember
    exact subInt_exact left.cycles right.cycles (by omega) (by omega)
  refine ⟨⟨?_, ?_⟩, exact⟩
  · intro left leftMember right rightMember
    rw [exact left leftMember right rightMember, exact right rightMember left leftMember]
    omega
  · intro first firstMember second secondMember third thirdMember
    rw [exact first firstMember second secondMember, exact second secondMember third thirdMember,
      exact first firstMember third thirdMember]
    omega

private theorem cmpfunc_far (large small : PageStats) (largeInt : IsInt large.cycles)
    (smallInt : IsInt small.cycles) (far : 0x80000000 ≤ large.cycles - small.cycles) :
    cmpfunc large small < 0 := by
  unfold IsInt at largeInt smallInt
  simp only [cmpfunc, subInt, Int.bmod_def]
  omega

section Runs

variable (sorted page : List PageStats) (permuted : sorted.Perm page)
variable (distinct : (page.map PageStats.pageNumber).Nodup)

include permuted distinct

private theorem prefixRun_member (index : Nat) (entry : PageStats) (member : entry ∈ page) :
    entry.pageNumber ∈ (prefixRun sorted index).buff ↔ entry ∈ sorted.take (index + 1) := by
  constructor
  · intro sent
    obtain ⟨other, otherSent, same⟩ := List.mem_map.mp sent
    have otherMember := permuted.mem_iff.mp (List.mem_of_mem_take otherSent)
    rw [← List.inj_on_of_nodup_map distinct otherMember member same]
    exact otherSent
  · intro sent
    exact List.mem_map.mpr ⟨entry, sent, rfl⟩

private theorem prefixRun_nodup (index : Nat) : (prefixRun sorted index).buff.Nodup := by
  have numbers := (permuted.map PageStats.pageNumber).nodup_iff.mpr distinct
  exact numbers.sublist ((List.take_sublist (index + 1) sorted).map PageStats.pageNumber)

theorem cheapestNested_iff :
    CheapestNested page ((List.range page.length).map (prefixRun sorted)) ↔
      ∀ index < page.length, ∀ inside ∈ sorted.take (index + 1),
        ∀ outside ∈ sorted.drop (index + 1), inside.cycles ≤ outside.cycles := by
  have sameLength := permuted.length_eq
  constructor
  · rintro ⟨_count, runs⟩ index below inside insideSent outside outsideLeft
    have insideMember := permuted.mem_iff.mp (List.mem_of_mem_take insideSent)
    have outsideMember := permuted.mem_iff.mp (List.mem_of_mem_drop outsideLeft)
    have atIndex : ((List.range page.length).map (prefixRun sorted))[index]? =
        some (prefixRun sorted index) := by
      rw [List.getElem?_map, List.getElem?_range below, Option.map_some]
    obtain ⟨_size, _length, _nodup, _members, _extends, cheapest⟩ := runs index _ atIndex
    apply cheapest inside insideMember outside outsideMember
    · exact (prefixRun_member sorted page permuted distinct index inside insideMember).mpr insideSent
    · rw [prefixRun_member sorted page permuted distinct index outside outsideMember]
      intro outsideSent
      have twice := (permuted.nodup_iff.mpr (List.Nodup.of_map _ distinct))
      rw [← List.take_append_drop (index + 1) sorted] at twice
      exact (List.nodup_append.mp twice).2.2 outside outsideSent outside outsideLeft rfl
  · intro cheapest
    refine ⟨by rw [List.length_map, List.length_range], ?_⟩
    intro index run atIndex
    obtain ⟨below, here⟩ := List.getElem?_eq_some_iff.mp atIndex
    rw [List.length_map, List.length_range] at below
    rw [List.getElem_map, List.getElem_range] at here
    subst here
    have inside : index < sorted.length := by omega
    refine ⟨rfl, ?_, prefixRun_nodup sorted page permuted distinct index, ?_, ?_, ?_⟩
    · rw [prefixRun, List.length_map, List.length_take]
      omega
    · intro number sent
      obtain ⟨entry, entrySent, same⟩ := List.mem_map.mp sent
      exact List.mem_map.mpr ⟨entry, permuted.mem_iff.mp (List.mem_of_mem_take entrySent), same⟩
    · refine ⟨(sorted.take index).map PageStats.pageNumber, sorted[index].pageNumber, ?_, ?_⟩
      · cases index with
        | zero => rfl
        | succ previous =>
            rw [List.getElem?_cons_succ, List.getElem?_map, List.getElem?_map,
              List.getElem?_range (by omega)]
            rfl
      · rw [prefixRun, List.take_succ_eq_append_getElem inside, List.map_append]
        rfl
    · intro first firstMember second secondMember firstSent secondLeft
      rw [prefixRun_member sorted page permuted distinct index first firstMember] at firstSent
      rw [prefixRun_member sorted page permuted distinct index second secondMember] at secondLeft
      have somewhere := permuted.mem_iff.mpr secondMember
      rw [← List.take_append_drop (index + 1) sorted] at somewhere
      rcases List.mem_append.mp somewhere with sent | left
      · exact absurd sent secondLeft
      · exact cheapest index below first firstSent second left

end Runs

/-- Every conforming `qsort` leads to runs of the cheapest pages exactly when no two
profiled pages are more than the largest int apart. -/
theorem secondPhase_cheapest_iff (page : List PageStats)
    (distinct : (page.map PageStats.pageNumber).Nodup)
    (ints : ∀ entry ∈ page, IsInt entry.cycles) :
    (∀ qsort : Sorter PageStats, ∃ runs, secondPhase qsort page = some runs ∧
        CheapestNested page runs) ↔
      ∀ left ∈ page, ∀ right ∈ page, left.cycles - right.cycles ≤ 0x7fffffff := by
  constructor
  · intro every large largeMember small smallMember
    by_contra far
    have below := cmpfunc_far large small (ints large largeMember) (ints small smallMember)
      (by omega)
    have different : small ≠ large := by
      rintro rfl
      omega
    obtain ⟨qsort, count, within, largeFirst, smallLater⟩ :=
      exists_sorter_before cmpfunc page large small largeMember smallMember different below
    obtain ⟨runs, ran, nested⟩ := every qsort
    rw [secondPhase_eq] at ran
    cases ran
    have cheapest := (cheapestNested_iff _ page (qsort.perm cmpfunc page) distinct).mp nested
    cases count with
    | zero => cases largeFirst
    | succ index =>
        have wrong := cheapest index (by omega) large largeFirst small smallLater
        omega
  · intro close qsort
    obtain ⟨consistent, exact⟩ := cmpfunc_consistent page close
    have permuted := qsort.perm cmpfunc page
    refine ⟨_, secondPhase_eq qsort page, ?_⟩
    rw [cheapestNested_iff _ page permuted distinct]
    intro index _below inside insideSent outside outsideLeft
    have ordered := take_before_drop _ _ (qsort.sorted cmpfunc page consistent) (index + 1) inside
      outside insideSent outsideLeft
    rw [exact inside (permuted.mem_iff.mp (List.mem_of_mem_take insideSent)) outside
      (permuted.mem_iff.mp (List.mem_of_mem_drop outsideLeft))] at ordered
    omega

theorem secondPhase_cheapest_iff_sample :
    ∃ runs, secondPhase (sorterElse id List.Perm.refl) [⟨30, 0⟩, ⟨10, 1⟩] = some runs ∧
      CheapestNested [⟨30, 0⟩, ⟨10, 1⟩] runs :=
  (secondPhase_cheapest_iff [⟨30, 0⟩, ⟨10, 1⟩] (by decide) (by unfold IsInt; decide)).mpr
    (by decide) (sorterElse id List.Perm.refl)

/-- The largest int minus the smallest wraps to -1, so the page with the most cycles
is sent first, whatever `qsort` does. -/
theorem secondPhase_sends_dearest :
    ¬ ∃ (qsort : Sorter PageStats) (runs : List KernelParams),
      secondPhase qsort [⟨0x7fffffff, 0⟩, ⟨-0x80000000, 1⟩] = some runs ∧
        CheapestNested [⟨0x7fffffff, 0⟩, ⟨-0x80000000, 1⟩] runs := by
  rintro ⟨qsort, runs, ran, nested⟩
  have consistent : ConsistentOn cmpfunc [⟨0x7fffffff, 0⟩, ⟨-0x80000000, 1⟩] := by
    unfold ConsistentOn
    decide
  obtain ⟨count, within, dearest, cheapest⟩ := qsort.before cmpfunc _ consistent
    ⟨0x7fffffff, 0⟩ ⟨-0x80000000, 1⟩ (by decide) (by decide) (by decide)
  rw [secondPhase_eq] at ran
  cases ran
  have ordered := (cheapestNested_iff _ _ (qsort.perm cmpfunc _) (by decide)).mp nested
  cases count with
  | zero => cases dearest
  | succ index => exact absurd (ordered index (by omega) _ dearest _ cheapest) (by decide)

end BlackboxProfiling.Functime
