import Mathlib.Data.List.Basic

/-!
Sorting by a comparison function that returns a negative, zero or positive number.
A sorter permutes any list; it owes an order only where the function compares
consistently, and may do as it likes elsewhere.
-/

namespace ComparisonSort

variable {α : Type}

def ConsistentOn (cmp : α → α → Int) (items : List α) : Prop :=
  (∀ left ∈ items, ∀ right ∈ items, cmp left right < 0 ↔ 0 < cmp right left) ∧
  (∀ first ∈ items, ∀ second ∈ items, ∀ third ∈ items,
    cmp first second ≤ 0 → cmp second third ≤ 0 → cmp first third ≤ 0)

structure Sorter (α : Type) where
  run : (α → α → Int) → List α → List α
  perm : ∀ cmp items, (run cmp items).Perm items
  sorted : ∀ cmp items, ConsistentOn cmp items →
    (run cmp items).Pairwise (fun left right => cmp left right ≤ 0)

theorem ConsistentOn.total (cmp : α → α → Int) (items : List α) (consistent : ConsistentOn cmp items)
    (left right : α) (leftMember : left ∈ items) (rightMember : right ∈ items) :
    cmp left right ≤ 0 ∨ cmp right left ≤ 0 := by
  rcases Int.lt_or_le 0 (cmp left right) with above | notAbove
  · exact Or.inr (Int.le_of_lt ((consistent.1 right rightMember left leftMember).mpr above))
  · exact Or.inl notAbove

/-- Merge sort of the list as a list of its members, where the comparison is total
and transitive. -/
def mergeSorted (cmp : α → α → Int) (items : List α) : List α :=
  (items.attach.mergeSort (fun left right => decide (cmp left.val right.val ≤ 0))).map Subtype.val

theorem mergeSorted_perm (cmp : α → α → Int) (items : List α) :
    (mergeSorted cmp items).Perm items := by
  have permuted := (List.mergeSort_perm items.attach
    (fun left right => decide (cmp left.val right.val ≤ 0))).map Subtype.val
  rw [List.attach_map_subtype_val] at permuted
  exact permuted

theorem mergeSorted_sorted (cmp : α → α → Int) (items : List α)
    (consistent : ConsistentOn cmp items) :
    (mergeSorted cmp items).Pairwise (fun left right => cmp left right ≤ 0) := by
  let le (left right : { item // item ∈ items }) : Bool := decide (cmp left.val right.val ≤ 0)
  have transitive (first second third : { item // item ∈ items }) (below : le first second = true)
      (above : le second third = true) : le first third = true :=
    decide_eq_true (consistent.2 first.val first.property second.val second.property third.val
      third.property (of_decide_eq_true below) (of_decide_eq_true above))
  have total (left right : { item // item ∈ items }) : (le left right || le right left) = true := by
    rw [Bool.or_eq_true, decide_eq_true_eq, decide_eq_true_eq]
    exact consistent.total cmp items left.val right.val left.property right.property
  have ordered := List.pairwise_mergeSort transitive total items.attach
  exact List.pairwise_map.mpr (ordered.imp of_decide_eq_true)

open Classical in
noncomputable def sorterElse (rearrange : List α → List α)
    (permutes : ∀ items, (rearrange items).Perm items) : Sorter α where
  run := fun cmp items =>
    if ConsistentOn cmp items then mergeSorted cmp items else rearrange items
  perm := by
    intro cmp items
    split
    · exact mergeSorted_perm cmp items
    · exact permutes items
  sorted := by
    intro cmp items consistent
    rw [if_pos consistent]
    exact mergeSorted_sorted cmp items consistent

theorem sorterElse_run (rearrange : List α → List α)
    (permutes : ∀ items, (rearrange items).Perm items) (cmp : α → α → Int) (items : List α)
    (inconsistent : ¬ ConsistentOn cmp items) :
    (sorterElse rearrange permutes).run cmp items = rearrange items :=
  if_neg inconsistent

theorem take_before_drop (relation : α → α → Prop) (items : List α) (ordered : items.Pairwise relation)
    (count : Nat) (inside outside : α) (insideMember : inside ∈ items.take count)
    (outsideMember : outside ∈ items.drop count) : relation inside outside := by
  rw [← List.take_append_drop count items] at ordered
  exact (List.pairwise_append.mp ordered).2.2 inside insideMember outside outsideMember

theorem Sorter.before (sorter : Sorter α) (cmp : α → α → Int) (items : List α)
    (consistent : ConsistentOn cmp items) (small large : α) (smallMember : small ∈ items)
    (largeMember : large ∈ items) (below : cmp small large < 0) :
    ∃ count < items.length, small ∈ (sorter.run cmp items).take count ∧
      large ∈ (sorter.run cmp items).drop count := by
  have ordered := sorter.sorted cmp items consistent
  have permuted := sorter.perm cmp items
  obtain ⟨earlier, later, split⟩ := List.append_of_mem (permuted.mem_iff.mpr largeMember)
  have smallThere : small ∈ earlier ++ large :: later := by
    rw [← split]
    exact permuted.mem_iff.mpr smallMember
  have notAfter : cmp large small > 0 :=
    (consistent.1 small smallMember large largeMember).mp below
  rw [split] at ordered
  have earlierSmall : small ∈ earlier := by
    rcases List.mem_append.mp smallThere with before | fromLarge
    · exact before
    · rcases List.mem_cons.mp fromLarge with same | after
      · subst same
        omega
      · have orderedTail := (List.pairwise_append.mp ordered).2.1
        have wrong := (List.pairwise_cons.mp orderedTail).1 small after
        omega
  refine ⟨earlier.length, ?_, ?_, ?_⟩
  · rw [← permuted.length_eq, split, List.length_append, List.length_cons]
    omega
  · rw [split, List.take_left]
    exact earlierSmall
  · rw [split, List.drop_left]
    exact List.mem_cons_self

def moveFirst [DecidableEq α] (item : α) (items : List α) : List α :=
  if item ∈ items then item :: items.erase item else items

private theorem moveFirst_perm [DecidableEq α] (item : α) (items : List α) :
    (moveFirst item items).Perm items := by
  unfold moveFirst
  split
  · rename_i member
    exact (List.perm_cons_erase member).symm
  · exact List.Perm.refl items

/-- If one member compares below another, some sorter puts it in front, whether or
not the comparison is consistent. -/
theorem exists_sorter_before [DecidableEq α] (cmp : α → α → Int) (items : List α) (small large : α)
    (smallMember : small ∈ items) (largeMember : large ∈ items) (different : large ≠ small)
    (below : cmp small large < 0) :
    ∃ (sorter : Sorter α) (count : Nat), count < items.length ∧
      small ∈ (sorter.run cmp items).take count ∧ large ∈ (sorter.run cmp items).drop count := by
  refine ⟨sorterElse (moveFirst small) (moveFirst_perm small), ?_⟩
  by_cases consistent : ConsistentOn cmp items
  · exact Sorter.before _ cmp items consistent small large smallMember largeMember below
  · have ran : (sorterElse (moveFirst small) (moveFirst_perm small)).run cmp items =
        small :: items.erase small := by
      rw [sorterElse_run _ _ _ _ consistent, moveFirst, if_pos smallMember]
    have largeLeft : large ∈ items.erase small := (List.mem_erase_of_ne different).mpr largeMember
    have shorter := List.length_erase_of_mem smallMember
    have nonempty := List.length_pos_of_mem largeLeft
    refine ⟨1, by omega, ?_, ?_⟩
    · rw [ran, List.take_succ_cons]
      exact List.mem_cons_self
    · rw [ran]
      exact largeLeft

end ComparisonSort
