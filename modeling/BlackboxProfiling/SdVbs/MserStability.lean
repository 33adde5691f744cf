import BlackboxProfiling.SdVbs.MserAreas

/-!
The passes of `mser.c` that choose among the regions: a region is kept if no neighbour
in the tree is more stable, if its size is neither small nor big, and if the next
stable region around it is not nearly the same.
-/

namespace BlackboxProfiling.SdVbs.Mser

open DisjointSets (Forest)

/-- The operations on `float` that the passes use. -/
structure Floats (V : Type) where
  /-- `number / (area*1.0)`, stored as a `float`. -/
  ratio : Int → Int → V
  less : V → V → Bool
  /-- `change < 0.5`. -/
  belowHalf : V → Bool

/-- The field `maxstable` of the regions, and `nmer`. -/
structure Marks where
  nmer : Int
  maxstable : Nat → Nat

def Marks.clear (marks : Marks) (k : Nat) : Marks where
  nmer := marks.nmer - 1
  maxstable := Function.update marks.maxstable k 0

section

variable {V : Type} (floats : Floats V) (table : RegionTable)

def variation (k : Nat) : V :=
  floats.ratio ((table.entry k).areaTop - (table.entry k).areaBot) (table.entry k).area

def loser (i : Nat) : Nat :=
  if floats.less (variation floats table i) (variation floats table (table.entry i).parent) then
    (table.entry i).parent
  else i

/-- The comparison of region `i` with its parent. A parent behind the regions is no result. -/
def compareTurn (i : Nat) (marks : Marks) : Option Marks :=
  if (table.entry i).parent < table.ner then
    let worse := loser floats table i
    some (if marks.maxstable worse = 0 then marks else marks.clear worse)
  else none

def compareLoop (marks : Marks) : Nat → Option Marks
  | 0 => some marks
  | i + 1 => do
      let before ← compareLoop marks i
      compareTurn floats table i before

def stableParent (maxstable : Nat → Nat) : Nat → Nat → Option Nat
  | 0, _parent => none
  | fuel + 1, parent =>
      if parent < table.ner then
        if maxstable parent ≠ 0 then some parent
        else
          let next := (table.entry parent).parent
          if next = parent then some parent else stableParent maxstable fuel next
      else none

def change (i parent : Nat) : V :=
  floats.ratio ((table.entry parent).area - (table.entry i).area) (table.entry i).area

def removes (nel : Nat) (maxstable : Nat → Nat) (i : Nat) : Option Bool :=
  if nel / 2 < (table.entry i).area then some true
  else if (table.entry i).area < 25 then some true
  else
    let parent := (table.entry i).parent
    if parent = i then some false
    else (stableParent table maxstable table.ner parent).map
      (fun around => floats.belowHalf (change floats table i around))

def cleanupTurn (nel i : Nat) (marks : Marks) : Option Marks :=
  if marks.maxstable i = 0 then some marks
  else (removes floats table nel marks.maxstable i).map
    (fun removed => if removed then marks.clear i else marks)

def cleanupLoop (nel : Nat) (marks : Marks) : Nat → Option Marks
  | 0 => some marks
  | i + 1 => do
      let before ← cleanupLoop nel marks i
      cleanupTurn floats table nel i before

def stableRegions (nel : Nat) : Option Marks := do
  let compared ← compareLoop floats table ⟨table.ner, fun _k => 1⟩ table.ner
  cleanupLoop floats table nel compared table.ner

end

def enumerate (maxstable : Nat → Nat) : Nat → Nat × (Nat → Nat)
  | 0 => (1, maxstable)
  | i + 1 =>
      let before := enumerate maxstable i
      if before.2 i = 0 then before else (before.1 + 1, Function.update before.2 i before.1)

/-- The array `out` of `nmer` entries. One more would be stored behind it. -/
def saveRegions (table : RegionTable) (marks : Marks) : Nat → Option (List Nat)
  | 0 => some []
  | i + 1 => do
      let saved ← saveRegions table marks i
      if marks.maxstable i = 0 then some saved
      else if (saved.length : Int) < marks.nmer then some (saved ++ [(table.entry i).index + 1])
      else none

def Marks.Counted (marks : Marks) (ner : Nat) : Prop :=
  marks.nmer = ((List.range ner).filter (fun k => marks.maxstable k ≠ 0)).length

private theorem filter_range_clear (ner k : Nat) (inside : k < ner) (flags : Nat → Nat)
    (set : flags k ≠ 0) :
    ((List.range ner).filter (fun j => Function.update flags k 0 j ≠ 0)).length + 1 =
      ((List.range ner).filter (fun j => flags j ≠ 0)).length := by
  induction ner with
  | zero => exact absurd inside (Nat.not_lt_zero k)
  | succ ner ih =>
      rw [List.range_succ, List.filter_append, List.filter_append, List.length_append,
        List.length_append]
      rcases Nat.lt_or_eq_of_le (Nat.le_of_lt_succ inside) with before | last
      · have earlier := ih before
        have other : Function.update flags k 0 ner = flags ner :=
          Function.update_of_ne (Nat.ne_of_gt before) _ _
        simp only [List.filter_cons, List.filter_nil, other]
        omega
      · subst last
        have unchanged : (List.range k).filter (fun j => Function.update flags k 0 j ≠ 0) =
            (List.range k).filter (fun j => flags j ≠ 0) := by
          apply List.filter_congr
          intro j before
          rw [Function.update_of_ne (Nat.ne_of_lt (List.mem_range.mp before))]
        rw [unchanged]
        simp [set]

theorem Marks.Counted.clear {marks : Marks} {ner : Nat} (counted : marks.Counted ner) (k : Nat)
    (inside : k < ner) (set : marks.maxstable k ≠ 0) : (marks.clear k).Counted ner := by
  have fewer := filter_range_clear ner k inside marks.maxstable set
  unfold Marks.Counted at counted ⊢
  rw [Marks.clear]
  dsimp only
  rw [counted, ← fewer]
  omega

section

variable {V : Type} (floats : Floats V) (table : RegionTable)

/-- More stable than the parent, and no child is more stable. -/
def MaximallyStable (k : Nat) : Prop :=
  floats.less (variation floats table k) (variation floats table (table.entry k).parent) = true ∧
    ∀ child < table.ner, (table.entry child).parent = k →
      floats.less (variation floats table child) (variation floats table k) = false

instance (k : Nat) : Decidable (MaximallyStable floats table k) :=
  inferInstanceAs (Decidable (_ ∧ _))

def nextStable (up : Forest Nat) (k : Nat) : Nat :=
  up.first (fun top => decide (MaximallyStable floats table top)) (up.link k)

def Removed (nel : Nat) (up : Forest Nat) (k : Nat) : Prop :=
  nel / 2 < (table.entry k).area ∨ (table.entry k).area < 25 ∨
    floats.belowHalf (change floats table k (nextStable floats table up k)) = true

instance (nel : Nat) (up : Forest Nat) (k : Nat) : Decidable (Removed floats table nel up k) :=
  inferInstanceAs (Decidable (_ ∨ _ ∨ _))

def Kept (nel : Nat) (up : Forest Nat) (k : Nat) : Prop :=
  MaximallyStable floats table k ∧ ¬ Removed floats table nel up k

instance (nel : Nat) (up : Forest Nat) (k : Nat) : Decidable (Kept floats table nel up k) :=
  inferInstanceAs (Decidable (_ ∧ ¬ _))

private theorem loser_iff (k : Nat) (inside : k < table.ner) :
    (∀ i < table.ner, loser floats table i ≠ k) ↔ MaximallyStable floats table k := by
  constructor
  · intro wins
    constructor
    · by_contra notLess
      refine wins k inside ?_
      rw [loser, if_neg notLess]
    · intro child childInside isParent
      by_contra less
      refine wins child childInside ?_
      rw [Bool.not_eq_false, ← isParent] at less
      rw [loser, if_pos less, isParent]
  · intro stable i iInside loses
    obtain ⟨belowParent, aboveChildren⟩ := stable
    rw [loser] at loses
    by_cases less : floats.less (variation floats table i)
        (variation floats table (table.entry i).parent) = true
    · rw [if_pos less] at loses
      rw [loses, aboveChildren i iInside loses] at less
      cases less
    · rw [if_neg less] at loses
      subst loses
      exact less belowParent

theorem MaximallyStable.not_root {floats : Floats V} {table : RegionTable} {k : Nat}
    (stable : MaximallyStable floats table k) (inside : k < table.ner) :
    (table.entry k).parent ≠ k := by
  intro rooted
  obtain ⟨belowParent, aboveChildren⟩ := stable
  have notLess := aboveChildren k inside rooted
  rw [rooted] at belowParent
  rw [belowParent] at notLess
  cases notLess

variable {table} {up : Forest Nat}

private theorem loser_inside (nested : Nested table up) (i : Nat) (inside : i < table.ner) :
    loser floats table i < table.ner := by
  rw [loser, ← nested.link i inside]
  split
  · exact nested.stays i inside
  · exact inside

private theorem compareTurn_marks (nested : Nested table up) (turn : Nat) (inside : turn < table.ner)
    (before : Marks) (counted : before.Counted table.ner)
    (marked : ∀ k, before.maxstable k ≠ 0 ↔ ∀ i < turn, loser floats table i ≠ k) :
    ∃ after, compareTurn floats table turn before = some after ∧ after.Counted table.ner ∧
      ∀ k, after.maxstable k ≠ 0 ↔ ∀ i < turn + 1, loser floats table i ≠ k := by
  have parentInside : (table.entry turn).parent < table.ner := by
    rw [← nested.link turn inside]
    exact nested.stays turn inside
  have later (k : Nat) : (∀ i < turn + 1, loser floats table i ≠ k) ↔
      (∀ i < turn, loser floats table i ≠ k) ∧ loser floats table turn ≠ k :=
    Nat.forall_lt_succ_right
  rw [compareTurn, if_pos parentInside]
  dsimp only
  by_cases already : before.maxstable (loser floats table turn) = 0
  · rw [if_pos already]
    refine ⟨before, rfl, counted, ?_⟩
    intro k
    rw [later, marked]
    constructor
    · intro wins
      refine ⟨wins, ?_⟩
      intro same
      rw [same] at already
      exact (marked k).mpr wins already
    · exact And.left
  · rw [if_neg already]
    refine ⟨_, rfl, counted.clear _ (loser_inside floats nested turn inside) already, ?_⟩
    intro k
    rw [later, Marks.clear]
    dsimp only
    by_cases same : k = loser floats table turn
    · rw [same, Function.update_self]
      exact iff_of_false (fun unset => unset rfl) (fun both => both.2 rfl)
    · rw [Function.update_of_ne same, marked]
      exact (and_iff_left (Ne.symm same)).symm

private theorem compareLoop_marks (nested : Nested table up) (turns : Nat)
    (within : turns ≤ table.ner) :
    ∃ after, compareLoop floats table ⟨table.ner, fun _k => 1⟩ turns = some after ∧
      after.Counted table.ner ∧
      ∀ k, after.maxstable k ≠ 0 ↔ ∀ i < turns, loser floats table i ≠ k := by
  induction turns with
  | zero =>
      refine ⟨_, rfl, ?_, ?_⟩
      · unfold Marks.Counted
        dsimp only
        rw [List.filter_eq_self.mpr (fun _k _listed => decide_eq_true Nat.one_ne_zero), List.length_range]
      · intro k
        exact iff_of_true Nat.one_ne_zero (fun i none => absurd none (Nat.not_lt_zero i))
  | succ turns ih =>
      obtain ⟨before, ran, counted, marked⟩ := ih (Nat.le_of_succ_le within)
      rw [compareLoop, ran]
      exact compareTurn_marks floats nested turns within before counted marked

private theorem stableParent_first (nested : Nested table up) (maxstable : Nat → Nat) (node fuel : Nat)
    (inside : node < table.ner) (enough : (up.path node).length < fuel) :
    stableParent table maxstable fuel node =
      some (up.first (fun k => decide (maxstable k ≠ 0)) node) := by
  induction node using up.link_induction generalizing fuel with
  | rooted node rooted =>
      obtain ⟨left, rfl⟩ : ∃ left, fuel = left + 1 := ⟨fuel - 1, by omega⟩
      rw [stableParent, if_pos inside, ← nested.link node inside]
      dsimp only
      rw [if_pos rooted, ite_self, up.first_self _ node rooted]
  | step node passed ih =>
      obtain ⟨left, rfl⟩ : ∃ left, fuel = left + 1 := ⟨fuel - 1, by omega⟩
      rw [up.path_step node passed, List.length_cons] at enough
      rw [stableParent, if_pos inside, ← nested.link node inside]
      dsimp only
      by_cases set : maxstable node ≠ 0
      · rw [if_pos set, up.first_wanted _ node (decide_eq_true set)]
      · rw [if_neg set, if_neg passed, up.first_step _ node (decide_eq_false set)]
        exact ih left (nested.stays node inside) (by omega)

/-- Regions are stored after all the regions inside them. -/
theorem Nested.above_later (nested : Nested table up)
    (order : ∀ k < table.ner, up.link k ≠ k → k < up.link k) (k top : Nat)
    (inside : k < table.ner) (below : up.Below k top) : k ≤ top ∧ top < table.ner := by
  induction below with
  | here k => exact ⟨Nat.le_refl k, inside⟩
  | up k top _below ih =>
      obtain ⟨later, topInside⟩ := ih (nested.stays k inside)
      refine ⟨?_, topInside⟩
      by_cases rooted : up.link k = k
      · rwa [rooted] at later
      · exact Nat.le_trans (Nat.le_of_lt (order k inside rooted)) later

theorem removes_iff (nested : Nested table up)
    (order : ∀ k < table.ner, up.link k ≠ k → k < up.link k) (nel k : Nat)
    (inside : k < table.ner) (stable : MaximallyStable floats table k) (maxstable : Nat → Nat)
    (marked : ∀ top < table.ner, k < top →
      (maxstable top ≠ 0 ↔ MaximallyStable floats table top)) :
    removes floats table nel maxstable k = some (decide (Removed floats table nel up k)) := by
  rw [removes]
  by_cases big : nel / 2 < (table.entry k).area
  · have removed : Removed floats table nel up k := Or.inl big
    rw [if_pos big, decide_eq_true removed]
  by_cases few : (table.entry k).area < 25
  · have removed : Removed floats table nel up k := Or.inr (Or.inl few)
    rw [if_neg big, if_pos few, decide_eq_true removed]
  have passed := stable.not_root inside
  have linkInside := nested.stays k inside
  have short := up.path_length_lt (List.range table.ner)
    (fun top here => List.mem_range.mpr (nested.stays top (List.mem_range.mp here))) (up.link k)
    (List.mem_range.mpr linkInside)
  rw [List.length_range] at short
  have found := stableParent_first nested maxstable (up.link k) table.ner linkInside short
  rw [← nested.link k inside] at passed
  have before := order k inside passed
  have same : up.first (fun top => decide (maxstable top ≠ 0)) (up.link k) =
      nextStable floats table up k := by
    apply up.first_congr
    intro top below
    obtain ⟨later, topInside⟩ := nested.above_later order (up.link k) top linkInside below
    exact decide_eq_decide.mpr (marked top topInside (Nat.lt_of_lt_of_le before later))
  rw [if_neg big, if_neg few, ← nested.link k inside]
  dsimp only
  rw [if_neg passed, found, same, Option.map_some]
  congr 1
  rw [Bool.eq_iff_iff, decide_eq_true_iff]
  constructor
  · intro similar
    exact Or.inr (Or.inr similar)
  · intro removed
    exact Or.resolve_left (Or.resolve_left removed big) few

theorem cleanupTurn_marks (nested : Nested table up)
    (order : ∀ k < table.ner, up.link k ≠ k → k < up.link k) (nel turn : Nat)
    (inside : turn < table.ner) (before : Marks) (counted : before.Counted table.ner)
    (marked : ∀ k < table.ner, before.maxstable k ≠ 0 ↔ MaximallyStable floats table k ∧
      ¬ (k < turn ∧ Removed floats table nel up k)) :
    ∃ after, cleanupTurn floats table nel turn before = some after ∧ after.Counted table.ner ∧
      ∀ k < table.ner, after.maxstable k ≠ 0 ↔ MaximallyStable floats table k ∧
        ¬ (k < turn + 1 ∧ Removed floats table nel up k) := by
  have here : before.maxstable turn ≠ 0 ↔ MaximallyStable floats table turn := by
    rw [marked turn inside]
    exact and_iff_left (fun both => absurd both.1 (Nat.lt_irrefl turn))
  have others (k : Nat) (other : k ≠ turn) : (k < turn + 1 ∧ Removed floats table nel up k) ↔
      (k < turn ∧ Removed floats table nel up k) :=
    and_congr_left (fun _removed => by omega)
  rw [cleanupTurn]
  by_cases unset : before.maxstable turn = 0
  · rw [if_pos unset]
    refine ⟨before, rfl, counted, ?_⟩
    intro k kInside
    by_cases other : k = turn
    · subst other
      have unstable := fun stable => here.mpr stable unset
      exact iff_of_false (fun set => set unset) (fun both => unstable both.1)
    · rw [others k other]
      exact marked k kInside
  · -- what lies behind in the tree is not yet cleaned up
    have decided := removes_iff floats nested order nel turn inside (here.mp unset)
      before.maxstable (by
        intro top topInside behind
        rw [marked top topInside]
        exact and_iff_left (fun both => absurd both.1 (Nat.lt_asymm behind)))
    rw [if_neg unset, decided, Option.map_some]
    by_cases removed : Removed floats table nel up turn
    · rw [decide_eq_true removed, if_pos rfl]
      refine ⟨_, rfl, counted.clear turn inside unset, ?_⟩
      intro k kInside
      rw [Marks.clear]
      dsimp only
      by_cases other : k = turn
      · rw [other, Function.update_self]
        exact iff_of_false (fun set => set rfl)
          (fun both => both.2 ⟨Nat.lt_succ_self turn, removed⟩)
      · rw [Function.update_of_ne other, others k other]
        exact marked k kInside
    · rw [decide_eq_false removed, if_neg Bool.false_ne_true]
      refine ⟨before, rfl, counted, ?_⟩
      intro k kInside
      by_cases other : k = turn
      · rw [other]
        refine here.trans (and_iff_left ?_).symm
        intro both
        exact removed both.2
      · rw [others k other]
        exact marked k kInside

private theorem cleanupLoop_marks (nested : Nested table up)
    (order : ∀ k < table.ner, up.link k ≠ k → k < up.link k) (nel : Nat) (marks : Marks)
    (counted : marks.Counted table.ner)
    (marked : ∀ k < table.ner, (marks.maxstable k ≠ 0 ↔ MaximallyStable floats table k))
    (turns : Nat) (within : turns ≤ table.ner) :
    ∃ after, cleanupLoop floats table nel marks turns = some after ∧ after.Counted table.ner ∧
      ∀ k < table.ner, after.maxstable k ≠ 0 ↔ MaximallyStable floats table k ∧
        ¬ (k < turns ∧ Removed floats table nel up k) := by
  induction turns with
  | zero =>
      refine ⟨marks, rfl, counted, ?_⟩
      intro k inside
      rw [marked k inside]
      exact (and_iff_left (fun both => absurd both.1 (Nat.not_lt_zero k))).symm
  | succ turns ih =>
      obtain ⟨before, ran, beforeCounted, beforeMarked⟩ := ih (Nat.le_of_succ_le within)
      rw [cleanupLoop, ran]
      exact cleanupTurn_marks floats nested order nel turns within before beforeCounted beforeMarked

/-- The marked regions are those that stay. -/
theorem stableRegions_kept (nested : Nested table up)
    (order : ∀ k < table.ner, up.link k ≠ k → k < up.link k) (nel : Nat) :
    ∃ marks, stableRegions floats table nel = some marks ∧ marks.Counted table.ner ∧
      ∀ k < table.ner, marks.maxstable k ≠ 0 ↔ Kept floats table nel up k := by
  obtain ⟨compared, ran, counted, marked⟩ :=
    compareLoop_marks floats nested table.ner (Nat.le_refl _)
  obtain ⟨marks, cleaned, marksCounted, kept⟩ := cleanupLoop_marks floats nested order nel compared
    counted (fun k inside => (marked k).trans (loser_iff floats table k inside)) table.ner
    (Nat.le_refl _)
  refine ⟨marks, ?_, marksCounted, ?_⟩
  · rw [stableRegions, ran]
    exact cleaned
  · intro k inside
    rw [kept k inside, Kept, and_iff_right inside]

end

def marked (maxstable : Nat → Nat) (turns : Nat) : List Nat :=
  (List.range turns).filter (fun k => maxstable k ≠ 0)

private theorem marked_succ (maxstable : Nat → Nat) (turns : Nat) :
    marked maxstable (turns + 1) =
      if maxstable turns = 0 then marked maxstable turns else marked maxstable turns ++ [turns] := by
  rw [marked, List.range_succ, List.filter_append, ← marked]
  by_cases unset : maxstable turns = 0
  · rw [if_pos unset, List.filter_cons_of_neg (by simp [unset]), List.filter_nil, List.append_nil]
  · rw [if_neg unset, List.filter_cons_of_pos (by simp [unset]), List.filter_nil]

theorem enumerate_spec (maxstable : Nat → Nat) (turns : Nat) :
    (enumerate maxstable turns).1 = (marked maxstable turns).length + 1 ∧
      ∀ k, (enumerate maxstable turns).2 k =
        if k < turns ∧ maxstable k ≠ 0 then (marked maxstable k).length + 1 else maxstable k := by
  induction turns with
  | zero =>
      refine ⟨rfl, ?_⟩
      intro k
      rw [if_neg (fun both => absurd both.1 (Nat.not_lt_zero k))]
      rfl
  | succ turns ih =>
      obtain ⟨next, numbers⟩ := ih
      have here : (enumerate maxstable turns).2 turns = maxstable turns := by
        rw [numbers, if_neg (fun both => absurd both.1 (Nat.lt_irrefl turns))]
      have others (k : Nat) (other : k ≠ turns) :
          (k < turns + 1 ∧ maxstable k ≠ 0) ↔ (k < turns ∧ maxstable k ≠ 0) :=
        and_congr_left (fun _set => by omega)
      rw [enumerate, marked_succ, here]
      by_cases unset : maxstable turns = 0
      · rw [if_pos unset, if_pos unset]
        refine ⟨next, ?_⟩
        intro k
        by_cases other : k = turns
        · rw [other, here, if_neg (fun both => both.2 unset)]
        · rw [numbers]
          simp only [others k other]
      · rw [if_neg unset, if_neg unset, List.length_append, List.length_singleton]
        refine ⟨congrArg Nat.succ next, ?_⟩
        intro k
        dsimp only
        by_cases other : k = turns
        · rw [other, Function.update_self, if_pos ⟨Nat.lt_succ_self turns, unset⟩, next]
        · rw [Function.update_of_ne other, numbers]
          simp only [others k other]

def Marks.numbered (marks : Marks) (ner : Nat) : Marks :=
  { marks with maxstable := (enumerate marks.maxstable ner).2 }

theorem Marks.numbered_iff (marks : Marks) (ner k : Nat) :
    (marks.numbered ner).maxstable k ≠ 0 ↔ marks.maxstable k ≠ 0 := by
  have number := (enumerate_spec marks.maxstable ner).2 k
  rw [numbered]
  dsimp only
  rw [number]
  split
  · rename_i both
    exact iff_of_true (Nat.succ_ne_zero _) both.2
  · exact Iff.rfl

theorem Marks.numbered_marked (marks : Marks) (ner turns : Nat) :
    marked (marks.numbered ner).maxstable turns = marked marks.maxstable turns :=
  List.filter_congr (fun k _listed => decide_eq_decide.mpr (marks.numbered_iff ner k))

theorem marked_length_lt (maxstable : Nat → Nat) (k turns : Nat) (before : k < turns)
    (set : maxstable k ≠ 0) : (marked maxstable k).length < (marked maxstable turns).length := by
  induction turns with
  | zero => exact absurd before (Nat.not_lt_zero k)
  | succ turns ih =>
      rw [marked_succ]
      rcases Nat.lt_or_eq_of_le (Nat.le_of_lt_succ before) with earlier | last
      · refine Nat.lt_of_lt_of_le (ih earlier) ?_
        split
        · exact Nat.le_refl _
        · rw [List.length_append]
          exact Nat.le_add_right _ _
      · rw [← last, if_neg set, List.length_append, List.length_singleton]
        exact Nat.lt_succ_self _

theorem marked_getElem (maxstable : Nat → Nat) (turns place k : Nat)
    (found : (marked maxstable turns)[place]? = some k) :
    k < turns ∧ maxstable k ≠ 0 ∧ place = (marked maxstable k).length := by
  induction turns with
  | zero => cases found
  | succ turns ih =>
      rw [marked_succ] at found
      by_cases unset : maxstable turns = 0
      · rw [if_pos unset] at found
        obtain ⟨before, set, same⟩ := ih found
        exact ⟨Nat.lt_succ_of_lt before, set, same⟩
      · rw [if_neg unset] at found
        rcases Nat.lt_or_ge place (marked maxstable turns).length with early | late
        · rw [List.getElem?_append_left early] at found
          obtain ⟨before, set, same⟩ := ih found
          exact ⟨Nat.lt_succ_of_lt before, set, same⟩
        · rw [List.getElem?_append_right late, List.getElem?_singleton] at found
          split at found
          · rename_i last
            have here : turns = k := Option.some.inj found
            rw [← here]
            exact ⟨Nat.lt_succ_self turns, unset, by omega⟩
          · cases found

/-- The array `out` has room for the marked regions and no more. -/
theorem saveRegions_marked (table : RegionTable) (marks : Marks) (counted : marks.Counted table.ner)
    (turns : Nat) (within : turns ≤ table.ner) :
    saveRegions table marks turns =
      some ((marked marks.maxstable turns).map (fun k => (table.entry k).index + 1)) := by
  induction turns with
  | zero => rfl
  | succ turns ih =>
      rw [saveRegions, ih (Nat.le_of_succ_le within), marked_succ]
      dsimp only [Option.bind_eq_bind, Option.bind_some]
      by_cases unset : marks.maxstable turns = 0
      · rw [if_pos unset, if_pos unset]
      · have room := marked_length_lt marks.maxstable turns table.ner within unset
        unfold Marks.Counted at counted
        rw [← marked] at counted
        rw [if_neg unset, if_neg unset, counted, List.length_map, if_pos (Int.ofNat_lt.mpr room),
          List.map_append, List.map_singleton]

end BlackboxProfiling.SdVbs.Mser
