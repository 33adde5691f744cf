import BlackboxProfiling.SdVbs.MserParents

/-!
The pass of `mser.c` over tops and bottoms: how large each region is DELTA levels
above and below.
-/

namespace BlackboxProfiling.SdVbs.Mser

open DisjointSets (Forest)

structure RegionTable where
  ner : Nat
  entry : Nat → Region

def storeBottom (i j : Nat) (table : RegionTable) : RegionTable :=
  { table with
    entry := Function.update table.entry j
      { table.entry j with areaBot := max (table.entry j).areaBot (table.entry i).area } }

def storeTop (i j : Nat) (table : RegionTable) : RegionTable :=
  { table with
    entry := Function.update table.entry i
      { table.entry i with areaTop := (table.entry j).area } }

/-- The climb from `j` over the parents. A parent behind the regions is no result. -/
def areaClimb (delta : Int) (i : Nat) (val0 val1 : Int) :
    Nat → Nat → Nat → Int → RegionTable → Option RegionTable
  | 0, _j, _parent, _val, _table => none
  | fuel + 1, j, parent, val, table =>
      if parent < table.ner then
        let valp := (table.entry parent).value
        let bottomed :=
          if val0 ≤ val - delta ∧ val - delta < val1 then storeBottom i j table else table
        let topped :=
          if val ≤ val0 + delta ∧ val0 + delta < valp then storeTop i j bottomed else bottomed
        if val1 ≤ val - delta ∧ val0 + delta < val then some topped
        else if j = parent then some topped
        else areaClimb delta i val0 val1 fuel parent (topped.entry parent).parent valp topped
      else none

/-- The turn of region `i`; its way up has fewer regions than there are. -/
def areaTurn (delta : Int) (i : Nat) (table : RegionTable) : Option RegionTable :=
  let parent := (table.entry i).parent
  let val0 := (table.entry i).value
  areaClimb delta i val0 (table.entry parent).value table.ner i parent val0 table

def areaLoop (delta : Int) (table : RegionTable) : Nat → Option RegionTable
  | 0 => some table
  | i + 1 => do
      let before ← areaLoop delta table i
      areaTurn delta i before

def regionAreas (delta : Int) (table : RegionTable) : Option RegionTable :=
  areaLoop delta table table.ner

/-- The parents of the regions as a forest along which values rise. -/
structure Nested (table : RegionTable) (up : Forest Nat) : Prop where
  link : ∀ k < table.ner, up.link k = (table.entry k).parent
  stays : ∀ k < table.ner, up.link k < table.ner
  rises : ∀ k < table.ner, up.link k ≠ k →
    (table.entry k).value < (table.entry (up.link k)).value

structure SameRegions (before after : RegionTable) : Prop where
  ner : after.ner = before.ner
  parent : ∀ k, (after.entry k).parent = (before.entry k).parent
  index : ∀ k, (after.entry k).index = (before.entry k).index
  value : ∀ k, (after.entry k).value = (before.entry k).value
  area : ∀ k, (after.entry k).area = (before.entry k).area

theorem SameRegions.refl (table : RegionTable) : SameRegions table table :=
  ⟨rfl, fun _k => rfl, fun _k => rfl, fun _k => rfl, fun _k => rfl⟩

theorem SameRegions.trans {first second third : RegionTable} (one : SameRegions first second)
    (two : SameRegions second third) : SameRegions first third where
  ner := two.ner.trans one.ner
  parent k := (two.parent k).trans (one.parent k)
  index k := (two.index k).trans (one.index k)
  value k := (two.value k).trans (one.value k)
  area k := (two.area k).trans (one.area k)

theorem Nested.same {before after : RegionTable} {up : Forest Nat} (nested : Nested before up)
    (same : SameRegions before after) : Nested after up where
  link k inside := by
    rw [same.parent]
    exact nested.link k (same.ner ▸ inside)
  stays k inside := by
    rw [same.ner]
    exact nested.stays k (same.ner ▸ inside)
  rises k inside passed := by
    rw [same.value, same.value]
    exact nested.rises k (same.ner ▸ inside) passed

/-- The value `delta` below region `k` lies between region `i` and its parent. -/
def Bottom (delta : Int) (table : RegionTable) (up : Forest Nat) (i k : Nat) : Prop :=
  (table.entry i).value ≤ (table.entry k).value - delta ∧
    (table.entry k).value - delta < (table.entry (up.link i)).value

/-- The value `delta` above region `i` lies between region `k` and its parent. -/
def Top (delta : Int) (table : RegionTable) (up : Forest Nat) (i k : Nat) : Prop :=
  (table.entry k).value ≤ (table.entry i).value + delta ∧
    (table.entry i).value + delta < (table.entry (up.link k)).value

instance (delta : Int) (table : RegionTable) (up : Forest Nat) (i k : Nat) :
    Decidable (Bottom delta table up i k) := inferInstanceAs (Decidable (_ ∧ _))

instance (delta : Int) (table : RegionTable) (up : Forest Nat) (i k : Nat) :
    Decidable (Top delta table up i k) := inferInstanceAs (Decidable (_ ∧ _))

structure Climbed (delta : Int) (up : Forest Nat) (i j : Nat) (before after : RegionTable) :
    Prop where
  same : SameRegions before after
  bottoms : ∀ k, (up.Below j k → Bottom delta before up i k →
      (after.entry k).areaBot = max (before.entry k).areaBot (before.entry i).area) ∧
    (¬ (up.Below j k ∧ Bottom delta before up i k) →
      (after.entry k).areaBot = (before.entry k).areaBot)
  top : (∃ k, up.Below j k ∧ Top delta before up i k ∧
      (after.entry i).areaTop = (before.entry k).area) ∨
    ((∀ k, up.Below j k → ¬ Top delta before up i k) ∧
      (after.entry i).areaTop = (before.entry i).areaTop)
  otherTops : ∀ k, k ≠ i → (after.entry k).areaTop = (before.entry k).areaTop

section

variable {delta : Int} {table : RegionTable} {up : Forest Nat}

theorem Nested.below (nested : Nested table up) (j k : Nat) (inside : j < table.ner)
    (below : up.Below j k) : k < table.ner ∧ (table.entry j).value ≤ (table.entry k).value := by
  induction below with
  | here j => exact ⟨inside, Int.le_refl _⟩
  | up j k _below ih =>
      obtain ⟨topInside, rises⟩ := ih (nested.stays j inside)
      refine ⟨topInside, ?_⟩
      by_cases passed : up.link j = j
      · rwa [passed] at rises
      · exact Int.le_trans (Int.le_of_lt (nested.rises j inside passed)) rises

private theorem Nested.not_below_link (nested : Nested table up) (j : Nat) (inside : j < table.ner)
    (passed : up.link j ≠ j) : ¬ up.Below (up.link j) j := by
  intro again
  have rises := nested.rises j inside passed
  have falls := (nested.below _ _ (nested.stays j inside) again).2
  omega

theorem below_cases (j k : Nat) (below : up.Below j k) : k = j ∨ up.Below (up.link j) k := by
  cases below with
  | here => exact Or.inl rfl
  | up _ _ above => exact Or.inr above

def storeAt (delta : Int) (up : Forest Nat) (i j : Nat) (table : RegionTable) : RegionTable :=
  let bottomed := if Bottom delta table up i j then storeBottom i j table else table
  if Top delta table up i j then storeTop i j bottomed else bottomed

private theorem sameRegions_update (k : Nat) (region : Region)
    (parent : region.parent = (table.entry k).parent) (index : region.index = (table.entry k).index)
    (value : region.value = (table.entry k).value) (area : region.area = (table.entry k).area) :
    SameRegions table { table with entry := Function.update table.entry k region } := by
  have kept {field : Type} (read : Region → field) (same : read region = read (table.entry k))
      (other : Nat) : read (Function.update table.entry k region other) = read (table.entry other) := by
    by_cases here : other = k
    · rw [here, Function.update_self, same]
    · rw [Function.update_of_ne here]
  exact ⟨rfl, kept _ parent, kept _ index, kept _ value, kept _ area⟩

private theorem storeBottom_same (i j : Nat) : SameRegions table (storeBottom i j table) :=
  sameRegions_update j _ rfl rfl rfl rfl

private theorem storeTop_same (i j : Nat) : SameRegions table (storeTop i j table) :=
  sameRegions_update i _ rfl rfl rfl rfl

private theorem storeTop_areaBot (i j k : Nat) :
    ((storeTop i j table).entry k).areaBot = (table.entry k).areaBot := by
  rw [storeTop]
  dsimp only
  by_cases here : k = i
  · rw [here, Function.update_self]
  · rw [Function.update_of_ne here]

private theorem storeBottom_areaTop (i j k : Nat) :
    ((storeBottom i j table).entry k).areaTop = (table.entry k).areaTop := by
  rw [storeBottom]
  dsimp only
  by_cases here : k = j
  · rw [here, Function.update_self]
  · rw [Function.update_of_ne here]

private theorem storeAt_same (i j : Nat) : SameRegions table (storeAt delta up i j table) := by
  have bottomed : SameRegions table
      (if Bottom delta table up i j then storeBottom i j table else table) := by
    split
    · exact storeBottom_same i j
    · exact SameRegions.refl table
  rw [storeAt]
  split
  · exact bottomed.trans (storeTop_same i j)
  · exact bottomed

private theorem storeAt_areaBot (i j k : Nat) :
    ((storeAt delta up i j table).entry k).areaBot =
      if k = j ∧ Bottom delta table up i j then
        max (table.entry k).areaBot (table.entry i).area
      else (table.entry k).areaBot := by
  have bottomed : ((storeAt delta up i j table).entry k).areaBot =
      ((if Bottom delta table up i j then storeBottom i j table else table).entry k).areaBot := by
    rw [storeAt]
    split
    · exact storeTop_areaBot i j k
    · rfl
  rw [bottomed]
  by_cases bottom : Bottom delta table up i j
  · rw [if_pos bottom, storeBottom]
    dsimp only
    by_cases here : k = j
    · rw [if_pos ⟨here, bottom⟩, here, Function.update_self]
    · rw [if_neg (fun both => here both.1), Function.update_of_ne here]
  · rw [if_neg bottom, if_neg (fun both => bottom both.2)]

private theorem storeAt_areaTop (i j k : Nat) :
    ((storeAt delta up i j table).entry k).areaTop =
      if k = i ∧ Top delta table up i j then (table.entry j).area
      else (table.entry k).areaTop := by
  have bottomedTop : ((if Bottom delta table up i j then storeBottom i j table
      else table).entry k).areaTop = (table.entry k).areaTop := by
    split
    · exact storeBottom_areaTop i j k
    · rfl
  have bottomedArea : ((if Bottom delta table up i j then storeBottom i j table
      else table).entry j).area = (table.entry j).area := by
    split
    · exact (storeBottom_same i j).area j
    · rfl
  rw [storeAt]
  by_cases top : Top delta table up i j
  · rw [if_pos top, storeTop]
    dsimp only
    by_cases here : k = i
    · have both : k = i ∧ Top delta table up i j := ⟨here, top⟩
      rw [if_pos both, here, Function.update_self]
      exact bottomedArea
    · have notBoth : ¬ (k = i ∧ Top delta table up i j) := fun both => here both.1
      rw [if_neg notBoth, Function.update_of_ne here, bottomedTop]
  · have notBoth : ¬ (k = i ∧ Top delta table up i j) := fun both => top both.2
    rw [if_neg top, if_neg notBoth, bottomedTop]

private theorem bottom_congr {after : RegionTable} (same : SameRegions table after) (i k : Nat) :
    Bottom delta after up i k ↔ Bottom delta table up i k := by
  unfold Bottom
  rw [same.value, same.value, same.value]

private theorem top_congr {after : RegionTable} (same : SameRegions table after) (i k : Nat) :
    Top delta after up i k ↔ Top delta table up i k := by
  unfold Top
  rw [same.value, same.value, same.value]

theorem storeAt_climbed (i j : Nat)
    (noBottoms : ∀ k, k ≠ j → up.Below j k → ¬ Bottom delta table up i k)
    (noTops : ∀ k, k ≠ j → up.Below j k → ¬ Top delta table up i k) :
    Climbed delta up i j table (storeAt delta up i j table) := by
  constructor
  case same => exact storeAt_same i j
  case bottoms =>
    intro k
    rw [storeAt_areaBot]
    constructor
    · intro below bottom
      by_cases here : k = j
      · rw [here] at bottom
        rw [if_pos ⟨here, bottom⟩]
      · exact absurd bottom (noBottoms k here below)
    · intro neither
      rw [if_neg]
      intro both
      rw [both.1] at neither
      exact neither ⟨Forest.Below.here j, both.2⟩
  case top =>
    by_cases top : Top delta table up i j
    · refine Or.inl ⟨j, Forest.Below.here j, top, ?_⟩
      rw [storeAt_areaTop, if_pos ⟨rfl, top⟩]
    · refine Or.inr ⟨?_, ?_⟩
      · intro k below
        by_cases here : k = j
        · rw [here]
          exact top
        · exact noTops k here below
      · rw [storeAt_areaTop, if_neg (fun both => top both.2)]
  case otherTops =>
    intro k other
    rw [storeAt_areaTop, if_neg (fun both => other both.1)]

theorem Climbed.step {after : RegionTable} (nested : Nested table up) (i j : Nat)
    (inside : j < table.ner) (passed : up.link j ≠ j)
    (climbed : Climbed delta up i (up.link j) (storeAt delta up i j table) after) :
    Climbed delta up i j table after := by
  have stored : SameRegions table (storeAt delta up i j table) := storeAt_same i j
  have notAbove := nested.not_below_link j inside passed
  constructor
  case same => exact stored.trans climbed.same
  case bottoms =>
    intro k
    obtain ⟨reached, unreached⟩ := climbed.bottoms k
    rw [bottom_congr stored, stored.area, storeAt_areaBot] at reached
    rw [bottom_congr stored, storeAt_areaBot] at unreached
    by_cases here : k = j
    · subst here
      rw [unreached (fun both => notAbove both.1)]
      constructor
      · intro _below bottom
        rw [if_pos ⟨rfl, bottom⟩]
      · intro neither
        rw [if_neg (fun both => neither ⟨Forest.Below.here k, both.2⟩)]
    · rw [if_neg (fun both => here both.1)] at reached unreached
      constructor
      · intro below bottom
        exact reached (Or.resolve_left (below_cases j k below) here) bottom
      · intro neither
        exact unreached (fun both => neither ⟨Forest.Below.up _ _ both.1, both.2⟩)
  case top =>
    rcases climbed.top with ⟨k, above, top, found⟩ | ⟨none, kept⟩
    · rw [top_congr stored] at top
      rw [stored.area] at found
      exact Or.inl ⟨k, Forest.Below.up _ _ above, top, found⟩
    · rw [kept, storeAt_areaTop]
      by_cases top : Top delta table up i j
      · exact Or.inl ⟨j, Forest.Below.here j, top, by rw [if_pos ⟨rfl, top⟩]⟩
      · refine Or.inr ⟨?_, by rw [if_neg (fun both => top both.2)]⟩
        intro k below
        rcases below_cases j k below with same | above
        · rw [same]
          exact top
        · rw [← top_congr stored]
          exact none k above
  case otherTops =>
    intro k other
    rw [climbed.otherTops k other, storeAt_areaTop, if_neg (fun both => other both.1)]

variable (delta) in
/-- The climb ends at the root or where going on is useless, and both ways it has made
every store. -/
theorem areaClimb_climbed (nested : Nested table up) (i j : Nat)
    (inside : j < table.ner) (fuel : Nat) (enough : (up.path j).length < fuel) :
    ∃ after, areaClimb delta i (table.entry i).value (table.entry (up.link i)).value fuel j
        (up.link j) (table.entry j).value table = some after ∧
      Climbed delta up i j table after := by
  induction j using up.link_induction generalizing table fuel with
  | rooted j rooted =>
      obtain ⟨left, rfl⟩ : ∃ left, fuel = left + 1 := ⟨fuel - 1, by omega⟩
      refine ⟨storeAt delta up i j table, ?_, ?_⟩
      · rw [areaClimb, if_pos (nested.stays j inside)]
        dsimp only
        rw [if_pos rooted.symm, ite_self]
        rfl
      · have only (k : Nat) (other : k ≠ j) : ¬ up.Below j k := by
          intro below
          have same : k = j := below.kept (fun node => node = j)
            (fun node isRoot => by rw [isRoot]; exact rooted) rfl
          exact other same
        exact storeAt_climbed i j (fun k other below => absurd below (only k other))
          (fun k other below => absurd below (only k other))
  | step j passed ih =>
      obtain ⟨left, rfl⟩ : ∃ left, fuel = left + 1 := ⟨fuel - 1, by omega⟩
      rw [up.path_step j passed, List.length_cons] at enough
      rw [areaClimb, if_pos (nested.stays j inside)]
      dsimp only
      by_cases useless : (table.entry (up.link i)).value ≤ (table.entry j).value - delta ∧
          (table.entry i).value + delta < (table.entry j).value
      · rw [if_pos useless]
        refine ⟨storeAt delta up i j table, rfl, ?_⟩
        apply storeAt_climbed
        · intro k _other below bottom
          have higher := (nested.below j k inside below).2
          unfold Bottom at bottom
          omega
        · intro k _other below top
          have higher := (nested.below j k inside below).2
          unfold Top at top
          omega
      · rw [if_neg useless, if_neg (fun same => passed same.symm)]
        have stored : SameRegions table (storeAt delta up i j table) := storeAt_same i j
        have linkInside := nested.stays j inside
        obtain ⟨after, ran, climbed⟩ :=
          ih (nested.same stored) (by rw [stored.ner]; exact linkInside) left (by omega)
        rw [stored.value, stored.value, stored.value] at ran
        refine ⟨after, ?_, climbed.step nested i j inside passed⟩
        have parent : ((storeAt delta up i j table).entry (up.link j)).parent =
            up.link (up.link j) := by
          rw [stored.parent, nested.link _ linkInside]
        rw [← parent] at ran
        exact ran

/-! ### The turns of the regions -/

structure Measuring (delta : Int) (up : Forest Nat) (turns : Nat) (before after : RegionTable) :
    Prop where
  same : SameRegions before after
  atLeast : ∀ i < turns, ∀ k, up.Below i k → Bottom delta before up i k →
    (before.entry i).area ≤ (after.entry k).areaBot
  attained : ∀ k, (after.entry k).areaBot = (before.entry k).areaBot ∨
    ∃ i < turns, up.Below i k ∧ Bottom delta before up i k ∧
      (after.entry k).areaBot = (before.entry i).area
  top : ∀ i < turns, (∃ k, up.Below i k ∧ Top delta before up i k ∧
      (after.entry i).areaTop = (before.entry k).area) ∨
    ((∀ k, up.Below i k → ¬ Top delta before up i k) ∧
      (after.entry i).areaTop = (before.entry i).areaTop)
  later : ∀ i, turns ≤ i → (after.entry i).areaTop = (before.entry i).areaTop

private theorem areaTurn_measuring (nested : Nested table up) (turns : Nat) (inside : turns < table.ner)
    (middle : RegionTable) (measuring : Measuring delta up turns table middle) :
    ∃ after, areaTurn delta turns middle = some after ∧
      Measuring delta up (turns + 1) table after := by
  have same := measuring.same
  have middleNested := nested.same same
  have middleInside : turns < middle.ner := by
    rw [same.ner]
    exact inside
  have short := up.path_length_lt (List.range middle.ner)
    (fun k here => List.mem_range.mpr (middleNested.stays k (List.mem_range.mp here))) turns
    (List.mem_range.mpr middleInside)
  rw [List.length_range] at short
  obtain ⟨after, ran, climbed⟩ := areaClimb_climbed delta middleNested turns turns
    middleInside middle.ner short
  refine ⟨after, ?_, ?_⟩
  · rw [areaTurn, ← middleNested.link turns middleInside]
    exact ran
  · constructor
    case same => exact same.trans climbed.same
    case atLeast =>
      intro i before k below bottom
      obtain ⟨reached, unreached⟩ := climbed.bottoms k
      rw [bottom_congr same, same.area] at reached
      rw [bottom_congr same] at unreached
      rcases Nat.lt_or_eq_of_le (Nat.le_of_lt_succ before) with earlier | now
      · have old := measuring.atLeast i earlier k below bottom
        by_cases both : up.Below turns k ∧ Bottom delta table up turns k
        · rw [reached both.1 both.2]
          omega
        · rw [unreached both]
          exact old
      · rw [now] at below bottom ⊢
        rw [reached below bottom]
        omega
    case attained =>
      intro k
      obtain ⟨reached, unreached⟩ := climbed.bottoms k
      rw [bottom_congr same, same.area] at reached
      rw [bottom_congr same] at unreached
      have old : (middle.entry k).areaBot = (table.entry k).areaBot ∨
          ∃ i < turns + 1, up.Below i k ∧ Bottom delta table up i k ∧
            (middle.entry k).areaBot = (table.entry i).area := by
        rcases measuring.attained k with unset | ⟨i, earlier, below, bottom, area⟩
        · exact Or.inl unset
        · exact Or.inr ⟨i, Nat.lt_succ_of_lt earlier, below, bottom, area⟩
      by_cases both : up.Below turns k ∧ Bottom delta table up turns k
      · rw [reached both.1 both.2]
        rcases Nat.le_total (middle.entry k).areaBot (table.entry turns).area with larger | smaller
        · rw [Nat.max_eq_right larger]
          exact Or.inr ⟨turns, Nat.lt_succ_self turns, both.1, both.2, rfl⟩
        · rw [Nat.max_eq_left smaller]
          exact old
      · rw [unreached both]
        exact old
    case top =>
      intro i before
      rcases Nat.lt_or_eq_of_le (Nat.le_of_lt_succ before) with earlier | now
      · rw [climbed.otherTops i (Nat.ne_of_lt earlier)]
        exact measuring.top i earlier
      · rw [now]
        rcases climbed.top with ⟨k, below, top, area⟩ | ⟨none, unchanged⟩
        · rw [top_congr same] at top
          rw [same.area] at area
          exact Or.inl ⟨k, below, top, area⟩
        · refine Or.inr ⟨?_, ?_⟩
          · intro k below
            rw [← top_congr same]
            exact none k below
          · rw [unchanged, measuring.later turns (Nat.le_refl turns)]
    case later =>
      intro i behind
      rw [climbed.otherTops i (by omega)]
      exact measuring.later i (by omega)

variable (delta) in
theorem areaLoop_measuring (nested : Nested table up) (turns : Nat) (within : turns ≤ table.ner) :
    ∃ after, areaLoop delta table turns = some after ∧ Measuring delta up turns table after := by
  induction turns with
  | zero =>
      refine ⟨table, rfl, SameRegions.refl table, ?_, fun _k => Or.inl rfl, ?_, fun _i _low => rfl⟩
      · intro i none
        exact absurd none (Nat.not_lt_zero i)
      · intro i none
        exact absurd none (Nat.not_lt_zero i)
  | succ turns ih =>
      obtain ⟨middle, ran, measuring⟩ := ih (Nat.le_of_succ_le within)
      obtain ⟨after, turned, next⟩ := areaTurn_measuring nested turns within middle measuring
      refine ⟨after, ?_, next⟩
      rw [areaLoop, ran]
      exact turned

end

/-! ### The regions of an image -/

def tableOf (regions : List Region) (unset : Nat → Region) : RegionTable where
  ner := regions.length
  entry k := regions.getD k (unset k)

def measuredRegions (image : I2D) (delta : Int) (unset : Nat → Node) (unsetRegions : Nat → Region) :
    Option RegionTable := do
  let tree ← extremalTree image unset
  let regions ← regionParents image tree
  regionAreas delta (tableOf regions unsetRegions)

structure Family (image : I2D) (tree : Tree) (parents : Forest Nat) (table : RegionTable)
    (up : Forest Nat) : Prop where
  nested : Nested table up
  saved : ∀ k < table.ner, ∃ region ∈ tree.regions, (table.entry k).index = region.index ∧
    (table.entry k).value = region.value ∧ (table.entry k).area = region.area ∧
    (table.entry k).areaTop = nel image ∧ (table.entry k).areaBot = 0
  listed : ∀ region ∈ tree.regions, ∃ k < table.ner, (table.entry k).index = region.index ∧
    (table.entry k).value = region.value ∧ (table.entry k).area = region.area
  rooted : ∀ k < table.ner, up.link k = k ↔
    parents.link (table.entry k).index = (table.entry k).index
  around : ∀ k < table.ner, up.link k ≠ k →
    (table.entry (up.link k)).value = image.data (parents.link (table.entry k).index) ∧
      InRegion image (table.entry (up.link k)).value (table.entry (up.link k)).index
        (table.entry k).index
  order : ∀ k < table.ner, up.link k ≠ k → k < up.link k
  apart : ∀ k < table.ner, ∀ other < table.ner,
    (table.entry k).value = (table.entry other).value →
    InRegion image (table.entry k).value (table.entry k).index (table.entry other).index →
    k = other

section

variable {image : I2D} {tree : Tree} {parents : Forest Nat}

private theorem tableOf_entry (regions : List Region) (unset : Nat → Region) (k : Nat) (region : Region)
    (found : regions[k]? = some region) : (tableOf regions unset).entry k = region := by
  rw [tableOf]
  dsimp only
  rw [List.getD_eq_getElem?_getD, found, Option.getD_some]

section

variable {after : List Region} (unset : Nat → Region) (length : after.length = tree.regions.length)
  (each : ∀ (i : Nat) (region : Region), tree.regions[i]? = some region →
    ∃ j, after[i]? = some { region with parent := j } ∧
      ParentOf image tree.regions parents i j region)

include length each

private theorem tableOf_parented (k : Nat) (inside : k < (tableOf after unset).ner) :
    ∃ region j, tree.regions[k]? = some region ∧
      (tableOf after unset).entry k = { region with parent := j } ∧
      ParentOf image tree.regions parents k j region := by
  have ner : (tableOf after unset).ner = tree.regions.length := length
  rw [ner] at inside
  obtain ⟨j, stored, parentOf⟩ := each k _ (List.getElem?_eq_getElem inside)
  exact ⟨_, j, List.getElem?_eq_getElem inside, tableOf_entry after unset k _ stored, parentOf⟩

theorem tableOf_parent (k : Nat) (inside : k < (tableOf after unset).ner) :
    ((tableOf after unset).entry k).parent < (tableOf after unset).ner ∧
    (((tableOf after unset).entry k).parent = k ↔
      parents.link ((tableOf after unset).entry k).index = ((tableOf after unset).entry k).index) ∧
    (((tableOf after unset).entry k).parent ≠ k →
      ((tableOf after unset).entry ((tableOf after unset).entry k).parent).value =
        image.data (parents.link ((tableOf after unset).entry k).index) ∧
      InRegion image ((tableOf after unset).entry ((tableOf after unset).entry k).parent).value
        ((tableOf after unset).entry ((tableOf after unset).entry k).parent).index
        ((tableOf after unset).entry k).index) := by
  have ner : (tableOf after unset).ner = tree.regions.length := length
  obtain ⟨region, j, _found, stored, parentOf⟩ := tableOf_parented unset length each k inside
  rw [stored]
  dsimp only
  by_cases rooted : parents.link region.index = region.index
  · rw [parentOf.top rooted]
    exact ⟨inside, iff_of_true rfl rooted, fun different => absurd rfl different⟩
  · obtain ⟨different, parent, parentFound, _below, parentValue, connected⟩ :=
      parentOf.around rooted
    obtain ⟨grand, parentStored, _grandOf⟩ := each j parent parentFound
    rw [tableOf_entry after unset j _ parentStored]
    refine ⟨?_, iff_of_false different rooted, fun _different => ⟨parentValue, connected⟩⟩
    rw [ner]
    exact (List.getElem?_eq_some_iff.mp parentFound).1

private theorem Extremals.tableOf_rises (extremals : Extremals image tree parents) (k : Nat)
    (inside : k < (tableOf after unset).ner)
    (different : ((tableOf after unset).entry k).parent ≠ k) :
    ((tableOf after unset).entry k).value <
      ((tableOf after unset).entry ((tableOf after unset).entry k).parent).value := by
  obtain ⟨_parentInside, rootedIff, around⟩ := tableOf_parent unset length each k inside
  obtain ⟨region, j, found, stored, _parentOf⟩ := tableOf_parented unset length each k inside
  have member := List.mem_of_getElem? found
  obtain ⟨value, indexInside⟩ := extremals.value region member
  have notRooted := fun rooted => different (rootedIff.mpr rooted)
  rw [(around different).1]
  rw [stored] at notRooted ⊢
  dsimp only at notRooted ⊢
  rw [value]
  exact Or.resolve_left ((extremals.steps _ indexInside).mp ⟨region, member, rfl⟩) notRooted

private theorem Extremals.tableOf_byte (extremals : Extremals image tree parents) (bytes : Bytes image)
    (k : Nat) (inside : k < (tableOf after unset).ner) :
    ((tableOf after unset).entry k).value < 256 := by
  obtain ⟨region, j, found, stored, _parentOf⟩ := tableOf_parented unset length each k inside
  obtain ⟨value, indexInside⟩ := extremals.value region (List.mem_of_getElem? found)
  rw [stored]
  dsimp only
  rw [value]
  exact (bytes _ indexInside).2

/-- The parents of the regions are a forest, since values rise. -/
theorem Extremals.tableOf_forest (extremals : Extremals image tree parents)
    (bytes : Bytes image) :
    ∃ up : Forest Nat, ∀ k < (tableOf after unset).ner,
      up.link k = ((tableOf after unset).entry k).parent := by
  let up : Forest Nat :=
    { link := fun k => if k < (tableOf after unset).ner then ((tableOf after unset).entry k).parent
        else k
      depth := fun k => (256 - ((tableOf after unset).entry k).value).toNat
      descends := by
        intro k passed
        split at passed
        · rename_i inside
          have higher := extremals.tableOf_rises unset length each k inside passed
          have bound := extremals.tableOf_byte unset length each bytes k inside
          rw [if_pos inside]
          omega
        · exact absurd rfl passed }
  exact ⟨up, fun k inside => if_pos inside⟩

theorem Extremals.family (extremals : Extremals image tree parents) (bytes : Bytes image) :
    ∃ up, Family image tree parents (tableOf after unset) up := by
  have ner : (tableOf after unset).ner = tree.regions.length := length
  have entry := tableOf_parented unset length each
  have parentIs := tableOf_parent unset length each
  obtain ⟨up, link⟩ := extremals.tableOf_forest unset length each bytes
  refine ⟨up, ?_⟩
  constructor
  case nested =>
    constructor
    case link => exact link
    case stays =>
      intro k inside
      rw [link k inside]
      exact (parentIs k inside).1
    case rises =>
      intro k inside
      rw [link k inside]
      exact extremals.tableOf_rises unset length each k inside
  case saved =>
    intro k inside
    obtain ⟨region, j, found, stored, _parentOf⟩ := entry k inside
    obtain ⟨_number, _parent, areaTop, areaBot⟩ := extremals.numbered k region found
    rw [stored]
    exact ⟨region, List.mem_of_getElem? found, rfl, rfl, rfl, areaTop, areaBot⟩
  case listed =>
    intro region member
    obtain ⟨k, found⟩ := List.mem_iff_getElem?.mp member
    obtain ⟨j, stored, _parentOf⟩ := each k region found
    refine ⟨k, ?_, ?_⟩
    · rw [ner]
      exact (List.getElem?_eq_some_iff.mp found).1
    · rw [tableOf_entry after unset k _ stored]
      exact ⟨rfl, rfl, rfl⟩
  case rooted =>
    intro k inside
    rw [link k inside]
    exact (parentIs k inside).2.1
  case around =>
    intro k inside
    rw [link k inside]
    exact (parentIs k inside).2.2
  case order =>
    intro k inside
    rw [link k inside]
    intro different
    obtain ⟨region, j, found, stored, parentOf⟩ := entry k inside
    rw [stored] at different ⊢
    dsimp only at different ⊢
    by_cases rooted : parents.link region.index = region.index
    · exact absurd (parentOf.top rooted) different
    · obtain ⟨_different, parent, parentFound, below, _value, _around⟩ := parentOf.around rooted
      exact Nat.lt_of_le_of_ne (extremals.number_lt k j region parent found parentFound below)
        different.symm
  case apart =>
    intro k inside other otherInside level connected
    obtain ⟨region, j, found, stored, _parentOf⟩ := entry k inside
    obtain ⟨otherRegion, otherJ, otherFound, otherStored, _otherParentOf⟩ := entry other otherInside
    rw [stored, otherStored] at level connected
    have same := extremals.unique region otherRegion (List.mem_of_getElem? found)
      (List.mem_of_getElem? otherFound) level connected
    rw [← same] at otherFound
    have bound := (List.getElem?_eq_some_iff.mp found).1
    exact (List.getElem?_inj bound extremals.nodup).mp (found.trans otherFound.symm)

end

variable {table : RegionTable} {up : Forest Nat}

/-- Up to the value of its parent a region is the component of the level set. -/
theorem Family.pixels (family : Family image tree parents table up)
    (extremals : Extremals image tree parents) (k : Nat) (inside : k < table.ner) :
    ∃ pixels : List Nat, pixels.Nodup ∧ (table.entry k).area = pixels.length ∧
      ∀ level, (table.entry k).value ≤ level →
        (up.link k = k ∨ level < (table.entry (up.link k)).value) →
        ∀ pixel, pixel ∈ pixels ↔ InRegion image level (table.entry k).index pixel := by
  obtain ⟨region, member, index, value, area, _areaTop, _areaBot⟩ := family.saved k inside
  obtain ⟨pixels, distinct, length, listed⟩ := extremals.pixels region member
  refine ⟨pixels, distinct, area.trans length, ?_⟩
  intro level above below
  have rooted := family.rooted k inside
  rw [index] at rooted ⊢
  rw [value] at above
  apply listed level above
  by_cases top : up.link k = k
  · exact Or.inl (rooted.mp top)
  · have parentValue := (family.around k inside top).1
    rw [index] at parentValue
    rw [← parentValue]
    exact Or.inr (Or.resolve_left below top)

theorem Family.size (family : Family image tree parents table up)
    (extremals : Extremals image tree parents) (k : Nat) (inside : k < table.ner) (level : Int)
    (above : (table.entry k).value ≤ level)
    (below : up.link k = k ∨ level < (table.entry (up.link k)).value) :
    RegionSize image level (table.entry k).index (table.entry k).area := by
  obtain ⟨pixels, distinct, area, listed⟩ := family.pixels extremals k inside
  exact ⟨pixels, distinct, area, listed level above below⟩

theorem Family.value (family : Family image tree parents table up)
    (extremals : Extremals image tree parents) (k : Nat) (inside : k < table.ner) :
    (table.entry k).value = image.data (table.entry k).index := by
  obtain ⟨region, member, index, value, _area⟩ := family.saved k inside
  rw [value, index]
  exact (extremals.value region member).1

theorem Family.higher (family : Family image tree parents table up) (k : Nat)
    (inside : k < table.ner) : up.link k = k ∨
      (table.entry k).value < (table.entry (up.link k)).value := by
  by_cases top : up.link k = k
  · exact Or.inl top
  · exact Or.inr (family.nested.rises k inside top)

theorem Family.low (family : Family image tree parents table up)
    (extremals : Extremals image tree parents) (k : Nat) (inside : k < table.ner) (level : Int)
    (above : (table.entry k).value ≤ level)
    (below : up.link k = k ∨ level < (table.entry (up.link k)).value) (pixel : Nat)
    (connected : InRegion image level (table.entry k).index pixel) :
    image.data pixel ≤ (table.entry k).value := by
  obtain ⟨pixels, _distinct, _area, listed⟩ := family.pixels extremals k inside
  have isPixel := (listed level above below pixel).mpr connected
  have own := (listed _ (Int.le_refl _) (family.higher k inside) pixel).mp isPixel
  exact own.low.mp (Int.le_of_eq (family.value extremals k inside).symm)

private theorem Family.contains (family : Family image tree parents table up) (i j : Nat)
    (inside : i < table.ner) (below : up.Below i j) :
    InRegion image (table.entry j).value (table.entry j).index (table.entry i).index := by
  induction below with
  | here i => exact Relation.EqvGen.refl _
  | up i j below ih =>
      have linkInside := family.nested.stays i inside
      have above := ih linkInside
      by_cases top : up.link i = i
      · rwa [top] at above
      · have around := (family.around i inside top).2
        have rises := (family.nested.below _ _ linkInside below).2
        exact Relation.EqvGen.trans _ _ _ above (around.mono rises)

theorem Family.area_le (family : Family image tree parents table up)
    (extremals : Extremals image tree parents) (i j : Nat) (inside : i < table.ner)
    (below : up.Below i j) : (table.entry i).area ≤ (table.entry j).area := by
  obtain ⟨otherInside, rises⟩ := family.nested.below i j inside below
  obtain ⟨pixels, distinct, area, listed⟩ := family.size extremals i inside _ (Int.le_refl _)
    (family.higher i inside)
  obtain ⟨others, _distinct, otherArea, otherListed⟩ := family.size extremals j otherInside _
    (Int.le_refl _) (family.higher j otherInside)
  rw [area, otherArea]
  refine (List.subperm_of_subset distinct ?_).length_le
  intro pixel present
  exact (otherListed pixel).mpr (Relation.EqvGen.trans _ _ _ (family.contains i j inside below)
    (((listed pixel).mp present).mono rises))

theorem Family.below_of_contains (family : Family image tree parents table up)
    (extremals : Extremals image tree parents) (i j : Nat) (inside : i < table.ner)
    (otherInside : j < table.ner) (level : (table.entry i).value ≤ (table.entry j).value)
    (connected : InRegion image (table.entry j).value (table.entry j).index
      (table.entry i).index) : up.Below i j := by
  have found (k : Nat) (kInside : k < table.ner)
      (sameLevel : (table.entry k).value = (table.entry j).value)
      (around : InRegion image (table.entry j).value (table.entry j).index
        (table.entry k).index) : up.Below k j := by
    rw [family.apart j otherInside k kInside sameLevel.symm around]
    exact Forest.Below.here k
  have notHigher (k : Nat) (kInside : k < table.ner)
      (kLevel : (table.entry k).value ≤ (table.entry j).value)
      (below : up.link k = k ∨ (table.entry j).value < (table.entry (up.link k)).value)
      (around : InRegion image (table.entry j).value (table.entry j).index
        (table.entry k).index) : (table.entry j).value ≤ (table.entry k).value := by
    rw [family.value extremals j otherInside]
    exact family.low extremals k kInside _ kLevel below _ (Relation.EqvGen.symm _ _ around)
  induction i using up.link_induction with
  | rooted i rooted =>
      have high := notHigher i inside level (Or.inl rooted) connected
      exact found i inside (Int.le_antisymm level high) connected
  | step i passed ih =>
      rcases Int.lt_or_eq_of_le level with lower | same
      · have linkInside := family.nested.stays i inside
        have around := (family.around i inside passed).2
        have smallest : (table.entry (up.link i)).value ≤ (table.entry j).value := by
          by_contra higher
          have high := notHigher i inside level (Or.inr (Int.not_le.mp higher)) connected
          omega
        apply Forest.Below.up
        apply ih linkInside smallest
        exact Relation.EqvGen.trans _ _ _ connected
          (Relation.EqvGen.symm _ _ (around.mono smallest))
      · exact found i inside same connected

/-- From a pixel the way up reaches the component of every level set the pixel is in. -/
theorem Extremals.level_ancestor (extremals : Extremals image tree parents) (pixel : Nat)
    (inside : pixel < nel image) (level : Int) (low : image.data pixel ≤ level) :
    ∃ top, top < nel image ∧ image.data top ≤ level ∧
      (parents.link top = top ∨ level < image.data (parents.link top)) ∧
      InRegion image level pixel top ∧ parents.Below pixel top := by
  induction pixel using parents.link_induction with
  | rooted pixel rooted =>
      exact ⟨pixel, inside, low, Or.inl rooted, Relation.EqvGen.refl _, Forest.Below.here pixel⟩
  | step pixel passed ih =>
      by_cases lowParent : image.data (parents.link pixel) ≤ level
      · obtain ⟨top, topInside, topLow, ends, connected, below⟩ :=
          ih (extremals.stays pixel inside) lowParent
        exact ⟨top, topInside, topLow, ends, Relation.EqvGen.trans _ _ _
          ((extremals.connected pixel inside).mono lowParent) connected,
          Forest.Below.up _ _ below⟩
      · exact ⟨pixel, inside, low, Or.inr (Int.not_le.mp lowParent), Relation.EqvGen.refl _,
          Forest.Below.here pixel⟩

theorem Extremals.below_iff (extremals : Extremals image tree parents) (region : Region)
    (member : region ∈ tree.regions) (pixel : Nat) (inside : pixel < nel image) :
    parents.Below pixel region.index ↔ InRegion image region.value region.index pixel := by
  obtain ⟨value, _indexInside⟩ := extremals.value region member
  have connects (node top : Nat) (below : parents.Below node top) (nodeInside : node < nel image) :
      image.data node ≤ image.data top ∧ InRegion image (image.data top) node top := by
    induction below with
    | here node => exact ⟨Int.le_refl _, Relation.EqvGen.refl _⟩
    | up node top _below ih =>
        obtain ⟨rises, connected⟩ := ih (extremals.stays node nodeInside)
        exact ⟨Int.le_trans (extremals.rises node nodeInside) rises, Relation.EqvGen.trans _ _ _
          ((extremals.connected node nodeInside).mono rises) connected⟩
  constructor
  · intro below
    rw [value]
    exact Relation.EqvGen.symm _ _ (connects pixel region.index below inside).2
  · intro inRegion
    have low : image.data pixel ≤ region.value := inRegion.low.mp (Int.le_of_eq value.symm)
    obtain ⟨top, topInside, topLow, ends, connected, below⟩ :=
      extremals.level_ancestor pixel inside region.value low
    have isRoot : parents.link top = top ∨ image.data top < image.data (parents.link top) :=
      ends.imp_right (Int.lt_of_le_of_lt topLow)
    obtain ⟨other, otherMember, isTop⟩ := (extremals.steps top topInside).mpr isRoot
    obtain ⟨otherValue, _otherInside⟩ := extremals.value other otherMember
    rw [isTop] at otherValue
    have around : InRegion image region.value top region.index :=
      Relation.EqvGen.symm _ _ (Relation.EqvGen.trans _ _ _ inRegion connected)
    -- up to the level the region of the top is the component of the region's root
    obtain ⟨pixels, _distinct, _area, listed⟩ := extremals.pixels other otherMember
    rw [isTop, otherValue] at listed
    have contains := (listed region.value topLow ends region.index).mpr around
    have higher : InRegion image (image.data top) top region.index :=
      (listed _ (Int.le_refl _) isRoot region.index).mp contains
    have lowIndex : region.value ≤ image.data top := by
      rw [value]
      exact higher.low.mp (Int.le_refl _)
    have same := extremals.unique other region otherMember member (by rw [otherValue]; omega)
      (by rw [otherValue, isTop]; exact higher)
    rw [← same, isTop]
    exact below

theorem Family.level_region (family : Family image tree parents table up)
    (extremals : Extremals image tree parents) (pixel : Nat) (inside : pixel < nel image)
    (level : Int) (low : image.data pixel ≤ level) :
    ∃ k < table.ner, (table.entry k).value ≤ level ∧
      (up.link k = k ∨ level < (table.entry (up.link k)).value) ∧
      InRegion image level pixel (table.entry k).index := by
  obtain ⟨top, topInside, topLow, ends, connected, _below⟩ :=
    extremals.level_ancestor pixel inside level low
  have isRoot : parents.link top = top ∨ image.data top < image.data (parents.link top) := by
    rcases ends with rooted | higher
    · exact Or.inl rooted
    · exact Or.inr (Int.lt_of_le_of_lt topLow higher)
  obtain ⟨region, member, isTop⟩ := (extremals.steps top topInside).mpr isRoot
  obtain ⟨k, kInside, index, value, _area⟩ := family.listed region member
  rw [isTop] at index
  refine ⟨k, kInside, ?_, ?_, by rw [index]; exact connected⟩
  · rw [value, (extremals.value region member).1, isTop]
    exact topLow
  · have rooted := family.rooted k kInside
    rw [index] at rooted
    rcases ends with root | higher
    · exact Or.inl (rooted.mpr root)
    · by_cases fixed : up.link k = k
      · exact Or.inl fixed
      · have around := (family.around k kInside fixed).1
        rw [index] at around
        rw [around]
        exact Or.inr higher

/-- The largest component of a level set inside a region. -/
structure LargestBelow (image : I2D) (region : Region) (level : Int) (size : Nat) : Prop where
  atLeast : ∀ pixel other, InRegion image region.value region.index pixel →
    image.data pixel ≤ level → RegionSize image level pixel other → other ≤ size
  attained : (size = 0 ∧ ∀ pixel, InRegion image region.value region.index pixel →
      level < image.data pixel) ∨
    ∃ pixel, InRegion image region.value region.index pixel ∧ image.data pixel ≤ level ∧
      RegionSize image level pixel size

theorem Measuring.areaTop {delta : Int} {after : RegionTable} (positive : 0 < delta)
    (family : Family image tree parents table up) (extremals : Extremals image tree parents)
    (measuring : Measuring delta up table.ner table after) (k : Nat) (inside : k < table.ner) :
    RegionSize image ((table.entry k).value + delta) (table.entry k).index
      (after.entry k).areaTop := by
  have reached (top : Nat) (below : up.Below k top)
      (level : (table.entry top).value ≤ (table.entry k).value + delta)
      (ends : up.link top = top ∨
        (table.entry k).value + delta < (table.entry (up.link top)).value) :
      RegionSize image ((table.entry k).value + delta) (table.entry k).index
        (table.entry top).area := by
    have topInside := (family.nested.below k top inside below).1
    have size := family.size extremals top topInside _ level ends
    exact size.moved ((family.contains k top inside below).mono level)
  rcases measuring.top k inside with ⟨top, below, isTop, area⟩ | ⟨none, area⟩
  · rw [area]
    exact reached top below isTop.1 (Or.inr isTop.2)
  · obtain ⟨_region, _member, _index, _value, _area, areaTop, _areaBot⟩ := family.saved k inside
    -- without a top the way up stays within the level, up to the whole image
    have atRoot := Forest.Below.kept
      (fun node => up.Below k node ∧ (table.entry node).value ≤ (table.entry k).value + delta)
      (by
        intro node both
        obtain ⟨below, level⟩ := both
        have linked := below.trans (Forest.Below.link up node)
        refine ⟨linked, ?_⟩
        by_contra higher
        exact none node below ⟨level, Int.not_le.mp higher⟩)
      (up.below_root k) ⟨Forest.Below.here k, by omega⟩
    have rootInside := (family.nested.below k _ inside atRoot.1).1
    obtain ⟨region, member, index, _rootValue, rootArea, _rest⟩ := family.saved _ rootInside
    have isRoot := (family.rooted _ rootInside).mp (up.link_root k)
    rw [index] at isRoot
    rw [area, areaTop, ← extremals.top_area region member isRoot, ← rootArea]
    exact reached _ atRoot.1 atRoot.2 (Or.inl (up.link_root k))

theorem Measuring.areaBot {delta : Int} {after : RegionTable} (positive : 0 < delta)
    (family : Family image tree parents table up) (extremals : Extremals image tree parents)
    (measuring : Measuring delta up table.ner table after) (k : Nat) (inside : k < table.ner) :
    LargestBelow image (table.entry k) ((table.entry k).value - delta)
      (after.entry k).areaBot := by
  have indexInside (i : Nat) (iInside : i < table.ner) : (table.entry i).index < nel image := by
    obtain ⟨region, member, index, _rest⟩ := family.saved i iInside
    rw [index]
    exact (extremals.value region member).2
  have atLeast (pixel other : Nat)
      (inRegion : InRegion image (table.entry k).value (table.entry k).index pixel)
      (low : image.data pixel ≤ (table.entry k).value - delta)
      (sized : RegionSize image ((table.entry k).value - delta) pixel other) :
      other ≤ (after.entry k).areaBot := by
    obtain ⟨i, iInside, level, ends, connected⟩ := family.level_region extremals pixel
      (inRegion.inside.mp (indexInside k inside)) _ low
    have around : InRegion image (table.entry k).value (table.entry k).index
        (table.entry i).index :=
      Relation.EqvGen.trans _ _ _ inRegion (connected.mono (by omega))
    have below := family.below_of_contains extremals i k iInside inside (by omega) around
    have size := (family.size extremals i iInside _ level ends).moved
      (Relation.EqvGen.symm _ _ connected)
    rw [sized.unique size]
    apply measuring.atLeast i iInside k below
    refine ⟨level, ?_⟩
    rcases ends with rooted | higher
    · -- the root is not below a region that is higher
      have same : k = i := below.kept (fun node => node = i)
        (fun node isRoot => by rw [isRoot]; exact rooted) rfl
      rw [same] at level
      omega
    · exact higher
  constructor
  case atLeast => exact atLeast
  case attained =>
    rcases measuring.attained k with unset | ⟨i, iInside, below, bottom, area⟩
    · obtain ⟨_region, _member, _index, _value, _area, _areaTop, areaBot⟩ := family.saved k inside
      rw [areaBot] at unset
      refine Or.inl ⟨unset, ?_⟩
      intro pixel inRegion
      by_contra low
      obtain ⟨i, iInside, level, ends, connected⟩ := family.level_region extremals pixel
        (inRegion.inside.mp (indexInside k inside)) _ (Int.not_lt.mp low)
      have size := (family.size extremals i iInside _ level ends).moved
        (Relation.EqvGen.symm _ _ connected)
      have bound := atLeast pixel _ inRegion (Int.not_lt.mp low) size
      have positiveSize := size.pos
      omega
    · refine Or.inr ⟨(table.entry i).index, family.contains i k iInside below, ?_, ?_⟩
      · rw [← family.value extremals i iInside]
        exact bottom.1
      · rw [area]
        exact family.size extremals i iInside _ bottom.1 (Or.inr bottom.2)

end

end BlackboxProfiling.SdVbs.Mser
