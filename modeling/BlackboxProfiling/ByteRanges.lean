import Mathlib.Data.List.Perm.Basic

/-!
Ranges of places in a file and when they share none. The ranges of a list are
apart from each other in any order, so one of them can be taken out, made longer
or moved on its own.
-/

namespace ByteRanges

structure Range where
  start : Nat
  length : Nat
  deriving DecidableEq, Repr

def Range.Has (range : Range) (place : Nat) : Prop :=
  range.start ≤ place ∧ place < range.start + range.length

instance (range : Range) (place : Nat) : Decidable (range.Has place) :=
  inferInstanceAs (Decidable (_ ∧ _))

def Apart (left right : Range) : Prop := ∀ place, ¬ (left.Has place ∧ right.Has place)

def Range.behind (range : Range) (more : Nat) : Range := ⟨range.start + range.length, more⟩

def Range.grow (range : Range) (more : Nat) : Range := ⟨range.start, range.length + more⟩

def Range.stop (range : Range) : Nat := range.start + range.length

theorem apart_iff (left right : Range) :
    Apart left right ↔ left.length = 0 ∨ right.length = 0 ∨
      left.start + left.length ≤ right.start ∨ right.start + right.length ≤ left.start := by
  constructor
  · intro apart
    have atLeft := apart left.start
    have atRight := apart right.start
    simp only [Range.Has] at atLeft atRight
    omega
  · rintro separated place ⟨inLeft, inRight⟩
    simp only [Range.Has] at inLeft inRight
    omega

instance (left right : Range) : Decidable (Apart left right) :=
  decidable_of_iff _ (apart_iff left right).symm

theorem Apart.symm (left right : Range) (apart : Apart left right) : Apart right left :=
  fun place both => apart place both.symm

theorem apart_empty (start : Nat) (other : Range) : Apart ⟨start, 0⟩ other :=
  (apart_iff _ _).mpr (Or.inl rfl)

theorem apart_nonempty_iff (range other : Range) (nonempty : 0 < range.length) :
    Apart range other ↔
      (0 < other.length → range.start < other.stop → range.stop ≤ other.start) := by
  rw [apart_iff, Range.stop, Range.stop]
  omega

theorem apart_grow_iff (range : Range) (more : Nat) (other : Range) :
    Apart (range.grow more) other ↔ Apart range other ∧ Apart (range.behind more) other := by
  have split (place : Nat) : (range.grow more).Has place ↔
      range.Has place ∨ (range.behind more).Has place := by
    simp only [Range.Has, Range.grow, Range.behind]
    omega
  constructor
  · intro apart
    constructor
    · rintro place ⟨inRange, inOther⟩
      exact apart place ⟨(split place).mpr (Or.inl inRange), inOther⟩
    · rintro place ⟨inBehind, inOther⟩
      exact apart place ⟨(split place).mpr (Or.inr inBehind), inOther⟩
  · rintro ⟨rangeApart, behindApart⟩ place ⟨inGrown, inOther⟩
    rcases (split place).mp inGrown with inRange | inBehind
    · exact rangeApart place ⟨inRange, inOther⟩
    · exact behindApart place ⟨inBehind, inOther⟩

def lastStop (ranges : List Range) : Nat :=
  ranges.foldr (fun range reached => max range.stop reached) 0

theorem stop_le_lastStop (ranges : List Range) (range : Range) (member : range ∈ ranges) :
    range.stop ≤ lastStop ranges := by
  induction ranges with
  | nil => cases member
  | cons head rest ih =>
      change range.stop ≤ max head.stop (lastStop rest)
      rcases List.mem_cons.mp member with same | later
      · rw [same]
        exact Nat.le_max_left _ _
      · exact Nat.le_trans (ih later) (Nat.le_max_right _ _)

theorem lastStop_attained (ranges : List Range) (positive : 0 < lastStop ranges) :
    ∃ range ∈ ranges, range.stop = lastStop ranges := by
  induction ranges with
  | nil => exact absurd positive (Nat.lt_irrefl 0)
  | cons head rest ih =>
      change ∃ range ∈ head :: rest, range.stop = max head.stop (lastStop rest)
      rcases Nat.le_total (lastStop rest) head.stop with first | later
      · exact ⟨head, List.mem_cons_self, (Nat.max_eq_left first).symm⟩
      · rw [Nat.max_eq_right later]
        have within : 0 < lastStop rest := by
          change 0 < max head.stop (lastStop rest) at positive
          omega
        obtain ⟨range, member, reached⟩ := ih within
        exact ⟨range, List.mem_cons_of_mem _ member, reached⟩

/-- The range at a place of a list shares no place with another range of the list. -/
def Alone (ranges : List Range) (place : Nat) : Prop :=
  ∀ own ∈ ranges[place]?, ∀ other ∈ ranges.eraseIdx place, Apart own other

instance (ranges : List Range) (place : Nat) : Decidable (Alone ranges place) :=
  inferInstanceAs (Decidable (∀ own ∈ ranges[place]?, ∀ other ∈ ranges.eraseIdx place,
    Apart own other))

theorem alone_iff (ranges : List Range) (place : Nat) (own : Range)
    (found : ranges[place]? = some own) :
    Alone ranges place ↔ ∀ other ∈ ranges.eraseIdx place, Apart own other := by
  rw [Alone, found]
  simp only [Option.mem_some_iff, forall_eq']

theorem Apart.comm (left right : Range) : Apart left right ↔ Apart right left :=
  ⟨Apart.symm left right, Apart.symm right left⟩

theorem forall_mem_set_iff (ranges : List Range) (place : Nat) (inside : place < ranges.length)
    (changed : Range) (holds : Range → Prop) :
    (∀ range ∈ ranges.set place changed, holds range) ↔
      holds changed ∧ ∀ range ∈ ranges.eraseIdx place, holds range := by
  have permuted := List.set_perm_cons_eraseIdx inside changed
  simp only [permuted.mem_iff, List.forall_mem_cons]

theorem alone_changed_iff (front items : List Range) (place : Nat) (inside : place < items.length)
    (changed added : Range) :
    Alone (front ++ (items.set place changed ++ [added])) (front.length + place) ↔
      ∀ other ∈ added :: (front ++ items.eraseIdx place), Apart changed other := by
  have within : place < (items.set place changed).length := by
    rw [List.length_set]
    exact inside
  have found : (front ++ (items.set place changed ++ [added]))[front.length + place]? =
      some changed := by
    rw [List.getElem?_append_right (Nat.le_add_right _ _), Nat.add_sub_cancel_left,
      List.getElem?_append_left within]
    exact List.getElem?_set_self inside
  rw [alone_iff _ _ _ found, List.eraseIdx_append_of_length_le (Nat.le_add_right _ _),
    Nat.add_sub_cancel_left, List.eraseIdx_append_of_lt_length within, List.eraseIdx_set_eq]
  simp only [List.forall_mem_cons, List.forall_mem_append, List.not_mem_nil, false_implies,
    implies_true, and_true]
  exact ⟨fun apart => ⟨apart.2.2, apart.1, apart.2.1⟩, fun apart => ⟨apart.2.1, apart.2.2, apart.1⟩⟩

theorem alone_added_iff (front items : List Range) (place : Nat) (inside : place < items.length)
    (changed added : Range) :
    Alone (front ++ (items.set place changed ++ [added])) (front.length + items.length) ↔
      ∀ other ∈ changed :: (front ++ items.eraseIdx place), Apart added other := by
  have length : (items.set place changed).length = items.length := List.length_set
  have found : (front ++ (items.set place changed ++ [added]))[front.length + items.length]? =
      some added := by
    rw [List.getElem?_append_right (Nat.le_add_right _ _), Nat.add_sub_cancel_left, ← length,
      List.getElem?_concat_length]
  rw [alone_iff _ _ _ found, List.eraseIdx_append_of_length_le (Nat.le_add_right _ _),
    Nat.add_sub_cancel_left, ← length,
    List.eraseIdx_append_of_length_le (Nat.le_refl _), Nat.sub_self]
  simp only [List.forall_mem_cons, List.forall_mem_append, List.eraseIdx_cons_zero,
    List.append_nil, forall_mem_set_iff items place inside]
  exact and_left_comm

theorem pairwise_perm_iff {left right : List Range} (same : left.Perm right) :
    left.Pairwise Apart ↔ right.Pairwise Apart :=
  same.pairwise_iff (fun {first second} apart => Apart.symm first second apart)

theorem taken_perm (front items : List Range) (place : Nat) (item : Range)
    (found : items[place]? = some item) :
    (front ++ items).Perm (item :: (front ++ items.eraseIdx place)) := by
  obtain ⟨inside, here⟩ := List.getElem?_eq_some_iff.mp found
  have taken := List.getElem_cons_eraseIdx_perm inside
  rw [here] at taken
  exact (taken.symm.append_left front).trans List.perm_middle

/-- Change one range of a list and put another one behind the list: besides the ranges
that stay only these two have to be looked at. -/
theorem changed_perm (front items : List Range) (place : Nat) (inside : place < items.length)
    (changed added : Range) :
    (front ++ (items.set place changed ++ [added])).Perm
      (added :: changed :: (front ++ items.eraseIdx place)) := by
  have permuted : (items.set place changed ++ [added]).Perm
      (added :: changed :: items.eraseIdx place) :=
    (List.perm_append_singleton added _).trans
      ((List.set_perm_cons_eraseIdx inside changed).cons added)
  exact (permuted.append_left front).trans
    (List.perm_middle.trans (List.perm_middle.cons added))

end ByteRanges
