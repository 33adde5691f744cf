import Mathlib.Data.List.Range
import Mathlib.Logic.Function.Basic

/-!
Counting sort of the indices below a bound by small keys: count the keys, sum the
counts up, and put the items in place from the last to the first.
-/

namespace CountingSort

variable {β : Type}

def countKeys (key : Nat → Nat) : Nat → Nat → Nat
  | 0, _bucket => 0
  | index + 1, bucket =>
      if bucket = key index then countKeys key index bucket + 1 else countKeys key index bucket

def accumulate (buckets : Nat → Nat) : Nat → Nat → Nat
  | 0, bucket => buckets bucket
  | last + 1, bucket =>
      if bucket = last + 1 then accumulate buckets last bucket + accumulate buckets last last
      else accumulate buckets last bucket

/-- A slot without a value has not been written. -/
structure Placing (β : Type) where
  buckets : Nat → Nat
  slots : Nat → Option β

def place (key : Nat → Nat) (item : Nat → β) : Nat → Placing β → Placing β
  | 0, placing => placing
  | index + 1, placing =>
      let slot := placing.buckets (key index) - 1
      place key item index
        { buckets := Function.update placing.buckets (key index) slot
          slots := Function.update placing.slots slot (some (item index)) }

def bucketSort (bucketCount : Nat) (key : Nat → Nat) (item : Nat → β) (count : Nat) :
    Nat → Option β :=
  (place key item count
    ⟨accumulate (countKeys key count) (bucketCount - 1), fun _slot => none⟩).slots

def keyCount (key : Nat → Nat) (count bucket : Nat) : Nat :=
  (List.range count).countP (fun index => decide (key index = bucket))

def smallerCount (key : Nat → Nat) (count bucket : Nat) : Nat :=
  (List.range count).countP (fun index => decide (key index < bucket))

theorem keyCount_succ (key : Nat → Nat) (count bucket : Nat) :
    keyCount key (count + 1) bucket =
      keyCount key count bucket + if key count = bucket then 1 else 0 := by
  simp only [keyCount, List.range_succ, List.countP_append, List.countP_singleton,
    decide_eq_true_eq]

theorem smallerCount_succ (key : Nat → Nat) (count bucket : Nat) :
    smallerCount key count (bucket + 1) = smallerCount key count bucket + keyCount key count bucket := by
  induction count with
  | zero => rfl
  | succ count ih =>
      simp only [smallerCount, keyCount, List.range_succ, List.countP_append, List.countP_singleton,
        decide_eq_true_eq] at ih ⊢
      rw [ih]
      rcases Nat.lt_trichotomy (key count) bucket with less | same | more
      · rw [if_pos (by omega), if_pos less, if_neg (by omega)]
        omega
      · rw [if_pos (by omega), if_neg (by omega), if_pos same]
        omega
      · rw [if_neg (by omega), if_neg (by omega), if_neg (by omega)]
        omega

private theorem countKeys_eq (key : Nat → Nat) (count bucket : Nat) :
    countKeys key count bucket = keyCount key count bucket := by
  induction count with
  | zero => rfl
  | succ count ih =>
      rw [keyCount_succ, countKeys]
      by_cases here : bucket = key count
      · rw [if_pos here, ih, if_pos here.symm]
      · rw [if_neg here, ih, if_neg (fun same => here same.symm), Nat.add_zero]

private theorem accumulate_eq (key : Nat → Nat) (count last bucket : Nat) :
    accumulate (countKeys key count) last bucket =
      if bucket ≤ last then smallerCount key count (bucket + 1) else keyCount key count bucket := by
  induction last generalizing bucket with
  | zero =>
      rw [accumulate, countKeys_eq]
      split
      · rename_i isZero
        rw [Nat.le_zero.mp isZero, smallerCount_succ]
        have none : smallerCount key count 0 = 0 := by
          rw [smallerCount, List.countP_eq_zero]
          intro index _member
          exact fun below => absurd (of_decide_eq_true below) (Nat.not_lt_zero _)
        omega
      · rfl
  | succ last ih =>
      rw [accumulate]
      by_cases here : bucket = last + 1
      · subst here
        rw [if_pos rfl, ih, ih, if_neg (by omega), if_pos (Nat.le_refl last),
          if_pos (Nat.le_refl _), smallerCount_succ key count (last + 1)]
        omega
      · rw [if_neg here, ih]
        by_cases within : bucket ≤ last
        · rw [if_pos within, if_pos (by omega)]
        · rw [if_neg within, if_neg (by omega)]

/-- The stable order of the indices. -/
def Before (key : Nat → Nat) (left right : Nat) : Prop :=
  key left < key right ∨ (key left = key right ∧ left < right)

instance (key : Nat → Nat) (left right : Nat) : Decidable (Before key left right) :=
  inferInstanceAs (Decidable (key left < key right ∨ (key left = key right ∧ left < right)))

def position (key : Nat → Nat) (count index : Nat) : Nat :=
  smallerCount key count (key index) + keyCount key index (key index)

private theorem countBefore_eq (key : Nat → Nat) (count index : Nat) :
    (List.range count).countP (fun other => decide (Before key other index)) =
      smallerCount key count (key index) + keyCount key (min count index) (key index) := by
  induction count with
  | zero => simp [smallerCount, keyCount]
  | succ count ih =>
      have smaller : smallerCount key (count + 1) (key index) =
          smallerCount key count (key index) + if key count < key index then 1 else 0 := by
        simp only [smallerCount, List.range_succ, List.countP_append, List.countP_singleton,
          decide_eq_true_eq]
      rw [List.range_succ, List.countP_append, ih, List.countP_singleton, smaller]
      simp only [decide_eq_true_eq]
      by_cases earlier : count < index
      · rw [Nat.min_eq_left earlier, Nat.min_eq_left (Nat.le_of_lt earlier), keyCount_succ]
        rcases Nat.lt_trichotomy (key count) (key index) with less | same | more
        · have before : Before key count index := Or.inl less
          rw [if_pos before, if_pos less, if_neg (by omega)]
          omega
        · have before : Before key count index := Or.inr ⟨same, earlier⟩
          rw [if_pos before, if_neg (by omega), if_pos same]
          omega
        · have notBefore : ¬ Before key count index := by
            unfold Before
            omega
          rw [if_neg notBefore, if_neg (by omega), if_neg (by omega)]
          omega
      · rw [Nat.min_eq_right (by omega), Nat.min_eq_right (by omega)]
        by_cases less : key count < key index
        · have before : Before key count index := Or.inl less
          rw [if_pos before, if_pos less]
          omega
        · have notBefore : ¬ Before key count index := by
            unfold Before
            omega
          rw [if_neg notBefore, if_neg less]
          omega

private theorem position_eq_countBefore (key : Nat → Nat) (count index : Nat) (inside : index < count) :
    position key count index =
      (List.range count).countP (fun other => decide (Before key other index)) := by
  rw [countBefore_eq, Nat.min_eq_right (Nat.le_of_lt inside), position]

theorem countP_before_getElem {α : Type} (before : α → α → Prop)
    [DecidableRel before] (irrefl : ∀ item, ¬ before item item)
    (asymm : ∀ left right, before left right → ¬ before right left) (items : List α)
    (ordered : items.Pairwise before) (place : Nat) (inside : place < items.length) :
    items.countP (fun other => decide (before other items[place])) = place := by
  have earlier : (items.take place).countP (fun other => decide (before other items[place])) =
      place := by
    have all : (items.take place).countP (fun other => decide (before other items[place])) =
        (items.take place).length := by
      rw [List.countP_eq_length]
      intro other member
      obtain ⟨index, below, rfl⟩ := List.mem_take_iff_getElem.mp member
      rw [decide_eq_true_eq]
      exact List.pairwise_iff_getElem.mp ordered index place (by omega) inside (by omega)
    rw [all, List.length_take]
    omega
  have later : (items.drop place).countP (fun other => decide (before other items[place])) = 0 := by
    rw [List.countP_eq_zero]
    intro other member
    obtain ⟨index, below, rfl⟩ := List.mem_drop_iff_getElem.mp member
    rw [decide_eq_true_eq]
    rcases Nat.eq_zero_or_pos index with here | after
    · subst here
      exact irrefl _
    · exact asymm _ _ (List.pairwise_iff_getElem.mp ordered place (place + index) inside
        (by omega) (by omega))
  have split : items.countP (fun other => decide (before other items[place])) =
      (items.take place).countP (fun other => decide (before other items[place])) +
        (items.drop place).countP (fun other => decide (before other items[place])) := by
    rw [← List.countP_append, List.take_append_drop]
  omega

structure StableOrder (key : Nat → Nat) (count : Nat) where
  order : List Nat
  perm : order.Perm (List.range count)
  ordered : order.Pairwise (Before key)

theorem StableOrder.length {key : Nat → Nat} {count : Nat} (stable : StableOrder key count) :
    stable.order.length = count := by
  rw [stable.perm.length_eq, List.length_range]

theorem StableOrder.mem_iff {key : Nat → Nat} {count : Nat} (stable : StableOrder key count)
    (index : Nat) : index ∈ stable.order ↔ index < count := by
  rw [stable.perm.mem_iff, List.mem_range]

theorem StableOrder.position {key : Nat → Nat} {count : Nat} (stable : StableOrder key count)
    (place : Nat) (inside : place < stable.order.length) :
    CountingSort.position key count stable.order[place] = place := by
  have member := (stable.mem_iff _).mp (List.getElem_mem inside)
  rw [position_eq_countBefore key count _ member, ← stable.perm.countP_eq]
  apply countP_before_getElem (Before key)
  · intro index before
    rcases before with less | equal
    · exact Nat.lt_irrefl _ less
    · exact Nat.lt_irrefl _ equal.2
  · intro left right before after
    unfold Before at before after
    omega
  · exact stable.ordered

theorem stableOrder_exists (key : Nat → Nat) (count : Nat) : Nonempty (StableOrder key count) := by
  let le (left right : Nat) : Bool := !decide (Before key right left)
  have transitive (first second third : Nat) (below : le first second = true)
      (above : le second third = true) : le first third = true := by
    simp only [le, Bool.not_eq_true', decide_eq_false_iff_not] at below above ⊢
    unfold Before at below above ⊢
    omega
  have total (left right : Nat) : (le left right || le right left) = true := by
    simp only [le, Bool.or_eq_true, Bool.not_eq_true', decide_eq_false_iff_not]
    unfold Before
    omega
  have sorted := List.pairwise_mergeSort transitive total (List.range count)
  have permuted := List.mergeSort_perm (List.range count) le
  have distinct : ((List.range count).mergeSort le).Nodup :=
    permuted.nodup_iff.mpr List.nodup_range
  refine ⟨⟨(List.range count).mergeSort le, permuted, ?_⟩⟩
  apply (sorted.and distinct).imp
  intro left right both
  obtain ⟨notAfter, different⟩ := both
  simp only [le, Bool.not_eq_true', decide_eq_false_iff_not] at notAfter
  unfold Before at notAfter ⊢
  omega

private theorem position_lt (key : Nat → Nat) (count index : Nat) (inside : index < count) :
    position key count index < count := by
  obtain ⟨stable⟩ := stableOrder_exists key count
  obtain ⟨place, below, rfl⟩ := List.mem_iff_getElem.mp ((stable.mem_iff index).mpr inside)
  rw [stable.position place below, ← stable.length]
  exact below

private theorem position_injective (key : Nat → Nat) (count left right : Nat)
    (leftInside : left < count)
    (rightInside : right < count) (same : position key count left = position key count right) :
    left = right := by
  obtain ⟨stable⟩ := stableOrder_exists key count
  obtain ⟨leftPlace, leftBelow, rfl⟩ :=
    List.mem_iff_getElem.mp ((stable.mem_iff left).mpr leftInside)
  obtain ⟨rightPlace, rightBelow, rfl⟩ :=
    List.mem_iff_getElem.mp ((stable.mem_iff right).mpr rightInside)
  rw [stable.position leftPlace leftBelow, stable.position rightPlace rightBelow] at same
  subst same
  rfl

/-- The state before the loop comes to the index below `left`: every bucket stands
behind the positions its indices have left, and the later indices are placed. -/
structure Placed (key : Nat → Nat) (item : Nat → β) (bucketCount count left : Nat)
    (placing : Placing β) : Prop where
  buckets : ∀ bucket < bucketCount,
    placing.buckets bucket = smallerCount key count bucket + keyCount key left bucket
  placed : ∀ index, left ≤ index → index < count →
    placing.slots (position key count index) = some (item index)
  unwritten : ∀ slot, (∀ index, left ≤ index → index < count → position key count index ≠ slot) →
    placing.slots slot = none

private theorem place_step (key : Nat → Nat) (item : Nat → β) (bucketCount count index : Nat)
    (small : key index < bucketCount) (inside : index < count) (placing : Placing β)
    (placed : Placed key item bucketCount count (index + 1) placing) :
    placing.buckets (key index) - 1 = position key count index ∧
      Placed key item bucketCount count index
        { buckets := Function.update placing.buckets (key index) (placing.buckets (key index) - 1)
          slots := Function.update placing.slots (placing.buckets (key index) - 1)
            (some (item index)) } := by
  have bucket := placed.buckets (key index) small
  rw [keyCount_succ, if_pos rfl] at bucket
  have slot : placing.buckets (key index) - 1 = position key count index := by
    rw [position]
    omega
  refine ⟨slot, ?_⟩
  rw [slot]
  constructor
  case buckets =>
    intro other below
    dsimp only
    by_cases here : other = key index
    · subst here
      rw [Function.update_self, position]
    · rw [Function.update_of_ne here, placed.buckets other below, keyCount_succ,
        if_neg (fun same => here same.symm), Nat.add_zero]
  case placed =>
    intro later from_left below
    dsimp only
    by_cases here : later = index
    · rw [here, Function.update_self]
    · have elsewhere : position key count later ≠ position key count index := by
        intro same
        exact here (position_injective key count later index below inside same)
      rw [Function.update_of_ne elsewhere]
      exact placed.placed later (by omega) below
  case unwritten =>
    intro other free
    dsimp only
    have elsewhere : other ≠ position key count index := by
      intro same
      exact free index (Nat.le_refl index) inside same.symm
    rw [Function.update_of_ne elsewhere]
    apply placed.unwritten
    intro later from_left below
    exact free later (by omega) below

theorem place_placed (key : Nat → Nat) (item : Nat → β) (bucketCount count left : Nat)
    (small : ∀ index < count, key index < bucketCount) (within : left ≤ count)
    (placing : Placing β) (placed : Placed key item bucketCount count left placing) :
    Placed key item bucketCount count 0 (place key item left placing) := by
  induction left generalizing placing with
  | zero => exact placed
  | succ index ih =>
      obtain ⟨_slot, next⟩ :=
        place_step key item bucketCount count index (small index within) within placing placed
      exact ih (Nat.le_of_succ_le within) _ next

/-- Slot `j` gets the item that is number `j` of the stable order, and nothing is
stored behind the slots. -/
theorem bucketSort_stable (bucketCount : Nat) (key : Nat → Nat) (item : Nat → β) (count : Nat)
    (small : ∀ index < count, key index < bucketCount) (stable : StableOrder key count) (slot : Nat) :
    bucketSort bucketCount key item count slot = stable.order[slot]?.map item := by
  have begin : Placed key item bucketCount count count
      ⟨accumulate (countKeys key count) (bucketCount - 1), fun _slot => none⟩ := by
    constructor
    case buckets =>
      intro bucket below
      dsimp only
      rw [accumulate_eq, if_pos (by omega), smallerCount_succ]
    case placed =>
      intro index from_count below
      omega
    case unwritten =>
      intro slot _free
      rfl
  have done := place_placed key item bucketCount count count small (Nat.le_refl count) _ begin
  by_cases inside : slot < stable.order.length
  · have member := (stable.mem_iff _).mp (List.getElem_mem inside)
    have here := done.placed stable.order[slot] (Nat.zero_le _) member
    rw [stable.position slot inside] at here
    rw [List.getElem?_eq_getElem inside]
    exact here
  · rw [List.getElem?_eq_none (Nat.le_of_not_lt inside)]
    apply done.unwritten
    intro index _low below same
    have bound := position_lt key count index below
    rw [stable.length] at inside
    omega

end CountingSort
