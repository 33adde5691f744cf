import BlackboxProfiling.SdVbs.Images
import Mathlib.Data.List.Nodup
import Mathlib.Data.List.Perm.Subperm
import Mathlib.Logic.Function.Basic
import Mathlib.Data.Int.Order.Basic
import Mathlib.Order.Lattice

/-!
`fSortIndices.c`: the indices of a row or a column by repeated search for the largest
entry, which is set to zero once it is found.
-/

namespace BlackboxProfiling.SdVbs

section

variable {V : Type} (less : V → V → Bool) (zero : V)

def largest (entries : Nat → V) (best : V × Nat) : Nat → V × Nat
  | 0 => best
  | j + 1 =>
      let before := largest entries best j
      if less before.1 (entries j) then (entries j, j) else before

structure Sorting (V : Type) where
  entries : Nat → V
  indices : List Nat

/-- The first indices of a row or a column of `count` entries. -/
def sortEntries (count : Nat) (entries : Nat → V) : Nat → Sorting V
  | 0 => ⟨entries, []⟩
  | i + 1 =>
      let before := sortEntries count entries i
      let localIndex := (largest less before.entries (before.entries i, i) count).2
      ⟨Function.update before.entries localIndex zero, before.indices ++ [localIndex]⟩

def fSortIndices (input : F2D V) (dim : Int) (i j : Nat) : Nat :=
  if dim = 1 then
    (sortEntries less zero input.width (fun k => input.subsref i k) input.width).indices.getD j 0
  else
    (sortEntries less zero input.height (fun k => input.subsref k j) input.height).indices.getD i 0

private theorem largest_lt (entries : Nat → V) (best : V × Nat) (count bound : Nat)
    (small : best.2 < bound)
    (within : count ≤ bound) : (largest less entries best count).2 < bound := by
  induction count with
  | zero => exact small
  | succ j ih =>
      rw [largest]
      split
      · exact within
      · exact ih (Nat.le_of_succ_le within)

private theorem sortEntries_indices (count : Nat) (entries : Nat → V) (turns : Nat)
    (within : turns ≤ count) :
    (sortEntries less zero count entries turns).indices.length = turns ∧
      ∀ index ∈ (sortEntries less zero count entries turns).indices, index < count := by
  induction turns with
  | zero =>
      refine ⟨rfl, ?_⟩
      intro index member
      cases member
  | succ i ih =>
      obtain ⟨length, inside⟩ := ih (Nat.le_of_succ_le within)
      rw [sortEntries]
      dsimp only
      refine ⟨by rw [List.length_append, length, List.length_singleton], ?_⟩
      intro index member
      rcases List.mem_append.mp member with earlier | last
      · exact inside index earlier
      · rw [List.mem_singleton.mp last]
        exact largest_lt less _ _ count count within (Nat.le_refl count)

theorem fSortIndices_lt (input : F2D V) (i j : Nat) (inside : j < input.width) :
    fSortIndices less zero input 1 i j < input.width := by
  obtain ⟨length, small⟩ := sortEntries_indices less zero input.width
    (fun k => input.subsref i k) input.width (Nat.le_refl _)
  rw [← length] at inside
  rw [fSortIndices, if_pos rfl, List.getD_eq_getElem?_getD, List.getElem?_eq_getElem inside,
    Option.getD_some]
  exact small _ (List.getElem_mem inside)

private theorem fSortIndices_row (input : F2D V) (i : Nat) :
    (List.range input.width).map (fSortIndices less zero input 1 i) =
      (sortEntries less zero input.width (fun k => input.subsref i k) input.width).indices := by
  have length := (sortEntries_indices less zero input.width (fun k => input.subsref i k)
    input.width (Nat.le_refl _)).1
  apply List.ext_getElem
  · rw [List.length_map, List.length_range, length]
  · intro j _inside otherInside
    rw [List.getElem_map, List.getElem_range, fSortIndices, if_pos rfl,
      List.getD_eq_getElem?_getD, List.getElem?_eq_getElem otherInside, Option.getD_some]

end

section

variable {V : Type} [LinearOrder V] [Zero V]

/-- `<` on values that are no NaN. -/
def lessThan (first second : V) : Bool := decide (first < second)

omit [Zero V] in
private theorem largest_found (entries : Nat → V) (best : V × Nat) (atBest : best.1 = entries best.2)
    (count : Nat) :
    (largest lessThan entries best count).1 = entries (largest lessThan entries best count).2 ∧
      best.1 ≤ (largest lessThan entries best count).1 ∧
      (∀ j < count, entries j ≤ (largest lessThan entries best count).1) ∧
      ((largest lessThan entries best count).2 = best.2 ∨
        best.1 < (largest lessThan entries best count).1) := by
  induction count with
  | zero => exact ⟨atBest, le_refl _, fun j none => absurd none (Nat.not_lt_zero j), Or.inl rfl⟩
  | succ count ih =>
      obtain ⟨value, above, greatest, moved⟩ := ih
      rw [largest]
      by_cases larger : (largest lessThan entries best count).1 < entries count
      · rw [lessThan, if_pos (decide_eq_true larger)]
        refine ⟨rfl, le_trans above (le_of_lt larger), ?_, Or.inr (lt_of_le_of_lt above larger)⟩
        intro j before
        rcases Nat.lt_or_eq_of_le (Nat.le_of_lt_succ before) with earlier | last
        · exact le_trans (greatest j earlier) (le_of_lt larger)
        · rw [last]
      · rw [lessThan, if_neg (by rwa [decide_eq_true_eq])]
        refine ⟨value, above, ?_, moved⟩
        intro j before
        rcases Nat.lt_or_eq_of_le (Nat.le_of_lt_succ before) with earlier | last
        · exact greatest j earlier
        · rw [last]
          exact not_lt.mp larger

def positives (entries : Nat → V) (count : Nat) : List Nat :=
  (List.range count).filter (fun j => decide (0 < entries j))

theorem mem_positives (entries : Nat → V) (count j : Nat) :
    j ∈ positives entries count ↔ j < count ∧ 0 < entries j := by
  rw [positives, List.mem_filter, List.mem_range, decide_eq_true_eq]

structure Taking (entries : Nat → V) (count : Nat) (sorting : Sorting V) : Prop where
  distinct : sorting.indices.Nodup
  positive : ∀ j ∈ sorting.indices, j < count ∧ 0 < entries j
  left : ∀ j, sorting.entries j = if j ∈ sorting.indices then 0 else entries j
  falls : sorting.indices.Pairwise (fun earlier later => entries later ≤ entries earlier)
  above : ∀ taken ∈ sorting.indices, ∀ j < count, j ∉ sorting.indices → entries j ≤ entries taken

theorem Taking.start (entries : Nat → V) (count : Nat) : Taking entries count ⟨entries, []⟩ where
  distinct := List.nodup_nil
  positive _j none := absurd none List.not_mem_nil
  left _j := (if_neg List.not_mem_nil).symm
  falls := List.Pairwise.nil
  above _taken none := absurd none List.not_mem_nil

theorem Taking.take {entries : Nat → V} {count : Nat} {before : Sorting V}
    (taking : Taking entries count before) (best : Nat) (inside : best < count)
    (fresh : best ∉ before.indices) (positive : 0 < entries best)
    (greatest : ∀ j < count, j ∉ before.indices → entries j ≤ entries best) :
    Taking entries count ⟨Function.update before.entries best 0, before.indices ++ [best]⟩ := by
  have listed (j : Nat) : j ∈ before.indices ++ [best] ↔ j ∈ before.indices ∨ j = best := by
    rw [List.mem_append, List.mem_singleton]
  constructor
  case distinct =>
    rw [List.nodup_append]
    refine ⟨taking.distinct, List.nodup_singleton _, ?_⟩
    intro taken member last isLast same
    rw [same, List.mem_singleton.mp isLast] at member
    exact fresh member
  case positive =>
    intro j member
    rcases (listed j).mp member with earlier | last
    · exact taking.positive j earlier
    · rw [last]
      exact ⟨inside, positive⟩
  case left =>
    intro j
    dsimp only
    by_cases last : j = best
    · rw [last, Function.update_self, if_pos ((listed _).mpr (Or.inr rfl))]
    · rw [Function.update_of_ne last, taking.left]
      simp only [listed, last, or_false]
  case falls =>
    refine List.pairwise_append.mpr ⟨taking.falls, List.pairwise_singleton _ _, ?_⟩
    intro taken member last isLast
    rw [List.mem_singleton.mp isLast]
    exact taking.above taken member best inside fresh
  case above =>
    intro taken member j jInside absent
    have both := not_or.mp (fun either => absent ((listed j).mpr either))
    rcases (listed taken).mp member with earlier | last
    · exact taking.above taken earlier j jInside both.1
    · rw [last]
      exact greatest j jInside both.1

theorem positives_left (entries : Nat → V) (count : Nat) (indices : List Nat)
    (few : indices.length < (positives entries count).length) :
    ∃ j ∈ positives entries count, j ∉ indices := by
  by_contra none
  have all (j : Nat) (isPositive : j ∈ positives entries count) : j ∈ indices := by
    by_contra absent
    exact none ⟨j, isPositive, absent⟩
  have short := (List.subperm_of_subset (List.nodup_range.filter _) all).length_le
  exact absurd few (Nat.not_lt.mpr short)

private theorem sortEntries_taking (entries : Nat → V) (count turns : Nat)
    (within : turns ≤ (positives entries count).length) :
    Taking entries count (sortEntries lessThan 0 count entries turns) := by
  induction turns with
  | zero => exact Taking.start entries count
  | succ turns ih =>
      have taking := ih (Nat.le_of_succ_le within)
      have left := taking.left
      have few : (positives entries count).length ≤ count := by
        have short := List.length_filter_le (fun j => decide (0 < entries j)) (List.range count)
        rwa [List.length_range] at short
      have turnsInside : turns < count := Nat.lt_of_lt_of_le within few
      have length := (sortEntries_indices lessThan 0 count entries turns
        (Nat.le_of_lt turnsInside)).1
      obtain ⟨rest, restPositive, restLeft⟩ := positives_left entries count
        (sortEntries lessThan 0 count entries turns).indices (by rw [length]; exact within)
      obtain ⟨restInside, restAbove⟩ := (mem_positives entries count rest).mp restPositive
      have found := largest_found (sortEntries lessThan 0 count entries turns).entries
        ((sortEntries lessThan 0 count entries turns).entries turns, turns) rfl count
      have inside := largest_lt lessThan (sortEntries lessThan 0 count entries turns).entries
        ((sortEntries lessThan 0 count entries turns).entries turns, turns) count count turnsInside
        (Nat.le_refl count)
      rw [sortEntries]
      generalize largest lessThan (sortEntries lessThan 0 count entries turns).entries
        ((sortEntries lessThan 0 count entries turns).entries turns, turns) count = best at found inside
      generalize sortEntries lessThan 0 count entries turns = before at *
      obtain ⟨value, _atLeast, greatest, _moved⟩ := found
      -- the entry found is above zero, so it was not taken before
      have bestAbove : 0 < best.1 := by
        have atRest := greatest rest restInside
        rw [left, if_neg restLeft] at atRest
        exact lt_of_lt_of_le restAbove atRest
      have fresh : best.2 ∉ before.indices := by
        intro taken
        rw [left, if_pos taken] at value
        exact absurd value (ne_of_gt bestAbove)
      rw [left, if_neg fresh] at value
      refine taking.take best.2 inside fresh (value ▸ bestAbove) ?_
      intro j jInside absent
      have atMost := greatest j jInside
      rw [left, if_neg absent] at atMost
      rw [← value]
      exact atMost

theorem sortEntries_cleared (entries : Nat → V) (count : Nat)
    (nonnegative : ∀ j < count, 0 ≤ entries j) (within : (positives entries count).length ≤ count)
    (j : Nat) (inside : j < count) :
    (sortEntries lessThan 0 count entries (positives entries count).length).entries j = 0 := by
  have taking := sortEntries_taking entries count _ (Nat.le_refl _)
  have length := (sortEntries_indices lessThan 0 count entries
    (positives entries count).length within).1
  have all : (positives entries count).Perm
      (sortEntries lessThan 0 count entries (positives entries count).length).indices := by
    have subperm := List.subperm_of_subset taking.distinct
      (fun j member => (mem_positives entries count j).mpr (taking.positive j member))
    exact (subperm.perm_of_length_le (Nat.le_of_eq length.symm)).symm
  rw [taking.left]
  split
  · rfl
  · rename_i absent
    by_contra notZero
    have isPositive : 0 < entries j := lt_of_le_of_ne (nonnegative j inside) (Ne.symm notZero)
    exact absent (all.mem_iff.mp ((mem_positives entries count j).mpr ⟨inside, isPositive⟩))

theorem sortEntries_zeros (entries : Nat → V) (count turn : Nat) (inside : turn < count)
    (zeros : ∀ j < count, (sortEntries lessThan 0 count entries turn).entries j = 0) :
    (∀ j < count, (sortEntries lessThan 0 count entries (turn + 1)).entries j = 0) ∧
    (sortEntries lessThan 0 count entries (turn + 1)).indices =
      (sortEntries lessThan 0 count entries turn).indices ++ [turn] := by
  have found := largest_found (sortEntries lessThan 0 count entries turn).entries
    ((sortEntries lessThan 0 count entries turn).entries turn, turn) rfl count
  have bestInside := largest_lt lessThan (sortEntries lessThan 0 count entries turn).entries
    ((sortEntries lessThan 0 count entries turn).entries turn, turn) count count inside
    (Nat.le_refl count)
  rw [sortEntries]
  dsimp only
  generalize sortEntries lessThan 0 count entries turn = before at *
  generalize largest lessThan before.entries (before.entries turn, turn) count = best at *
  obtain ⟨value, _atLeast, _greatest, moved⟩ := found
  have own : best.2 = turn := by
    rcases moved with same | larger
    · exact same
    · rw [zeros _ inside, value, zeros _ bestInside] at larger
      exact absurd larger (lt_irrefl _)
  rw [own]
  refine ⟨?_, rfl⟩
  intro j jInside
  by_cases here : j = turn
  · rw [here, Function.update_self]
  · rw [Function.update_of_ne here]
    exact zeros j jInside

theorem sortEntries_rest (entries : Nat → V) (count : Nat) (nonnegative : ∀ j < count, 0 ≤ entries j)
    (more : Nat) (within : (positives entries count).length + more ≤ count) :
    (∀ j < count,
      (sortEntries lessThan 0 count entries ((positives entries count).length + more)).entries j = 0) ∧
    (sortEntries lessThan 0 count entries ((positives entries count).length + more)).indices =
      (sortEntries lessThan 0 count entries (positives entries count).length).indices ++
        List.range' (positives entries count).length more := by
  induction more with
  | zero => exact ⟨sortEntries_cleared entries count nonnegative within, (List.append_nil _).symm⟩
  | succ more ih =>
      obtain ⟨zeros, indices⟩ := ih (by omega)
      obtain ⟨zerosNow, taken⟩ := sortEntries_zeros entries count
        ((positives entries count).length + more) (by omega) zeros
      refine ⟨zerosNow, ?_⟩
      rw [← Nat.add_assoc, taken, indices, List.append_assoc, List.range'_concat, Nat.one_mul]

/-- The indices of a row without negative entries: those of the entries above zero with the
entries falling, and from there on each place its own number. Every index appears only
where the entries above zero come before the zeros. -/
theorem fSortIndices_falls (input : F2D V) (i : Nat)
    (nonnegative : ∀ j < input.width, 0 ≤ input.subsref i j) :
    (∃ first, (List.range input.width).map (fSortIndices lessThan 0 input 1 i) =
        first ++ List.range' (positives (input.subsref i) input.width).length
          (input.width - (positives (input.subsref i) input.width).length) ∧
      first.Perm (positives (input.subsref i) input.width) ∧
      first.Pairwise (fun earlier later => input.subsref i later ≤ input.subsref i earlier)) ∧
    (((List.range input.width).map (fSortIndices lessThan 0 input 1 i)).Perm
        (List.range input.width) ↔
      ∀ j < input.width,
        0 < input.subsref i j ↔ j < (positives (input.subsref i) input.width).length) := by
  have few : (positives (input.subsref i) input.width).length ≤ input.width := by
    have short := List.length_filter_le (fun j => decide (0 < input.subsref i j))
      (List.range input.width)
    rwa [List.length_range] at short
  have taking := sortEntries_taking (input.subsref i) input.width _ (Nat.le_refl _)
  have length := (sortEntries_indices lessThan 0 input.width (input.subsref i) _ few).1
  have split := (sortEntries_rest (input.subsref i) input.width nonnegative
    (input.width - (positives (input.subsref i) input.width).length) (by omega)).2
  rw [Nat.add_sub_cancel' few] at split
  have isPositive := mem_positives (input.subsref i) input.width
  have distinct : (positives (input.subsref i) input.width).Nodup := List.nodup_range.filter _
  have first : (sortEntries lessThan 0 input.width (input.subsref i)
      (positives (input.subsref i) input.width).length).indices.Perm
        (positives (input.subsref i) input.width) :=
    (List.subperm_of_subset taking.distinct
      (fun j member => (isPositive j).mpr (taking.positive j member))).perm_of_length_le
        (Nat.le_of_eq length.symm)
  have all : List.range (positives (input.subsref i) input.width).length ++
      List.range' (positives (input.subsref i) input.width).length
        (input.width - (positives (input.subsref i) input.width).length) =
      List.range input.width := by
    have joined := List.range'_append_1 (s := 0)
      (m := (positives (input.subsref i) input.width).length)
      (n := input.width - (positives (input.subsref i) input.width).length)
    rw [Nat.zero_add, Nat.add_sub_cancel' few] at joined
    rw [List.range_eq_range', List.range_eq_range', joined]
  rw [fSortIndices_row lessThan 0, split]
  refine ⟨⟨_, rfl, first, taking.falls⟩, ?_⟩
  constructor
  · intro whole j inside
    rw [← all, List.perm_append_right_iff] at whole
    rw [← List.mem_range, ← (first.symm.trans whole).mem_iff, isPositive, and_iff_right inside]
  · intro atFront
    rw [← all, List.perm_append_right_iff]
    refine first.trans ((List.perm_ext_iff_of_nodup distinct List.nodup_range).mpr ?_)
    intro j
    rw [isPositive, List.mem_range]
    constructor
    · intro both
      exact (atFront j both.1).mp both.2
    · intro before
      have inside := Nat.lt_of_lt_of_le before few
      exact ⟨inside, (atFront j inside).mpr before⟩

def sampleRow : F2D Int := ⟨3, 1, fun k => [3, 0, 5].getD k 0⟩

/-- The zero in the middle never comes up and the last index twice. -/
example : (List.range 3).map (fSortIndices lessThan 0 sampleRow 1 0) = [2, 0, 2] := by decide

end

end BlackboxProfiling.SdVbs
