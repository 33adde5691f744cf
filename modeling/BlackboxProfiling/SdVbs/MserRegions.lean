import BlackboxProfiling.SdVbs.MserForest

/-!
What the tree loop records: the connected components of the level sets, each with
its area.
-/

namespace BlackboxProfiling.SdVbs.Mser

open DisjointSets (Forest addPair)

def LevelEdge (image : I2D) (level : Int) (left right : Nat) : Prop :=
  Touching image left right ∧ image.data left ≤ level ∧ image.data right ≤ level

/-- `other` is in the connected component of the level set that contains `pixel`. -/
def InRegion (image : I2D) (level : Int) (pixel other : Nat) : Prop :=
  Relation.EqvGen (LevelEdge image level) pixel other

theorem InRegion.mono {image : I2D} {level higher : Int} {pixel other : Nat}
    (connected : InRegion image level pixel other) (up : level ≤ higher) :
    InRegion image higher pixel other := by
  have edges (left right : Nat) (edge : LevelEdge image level left right) :
      LevelEdge image higher left right :=
    ⟨edge.1, Int.le_trans edge.2.1 up, Int.le_trans edge.2.2 up⟩
  exact Relation.EqvGen.mono edges _ _ connected

def RegionSize (image : I2D) (level : Int) (pixel size : Nat) : Prop :=
  ∃ pixels : List Nat, pixels.Nodup ∧ size = pixels.length ∧
    ∀ other, other ∈ pixels ↔ InRegion image level pixel other

theorem RegionSize.unique {image : I2D} {level : Int} {pixel size other : Nat}
    (one : RegionSize image level pixel size) (two : RegionSize image level pixel other) :
    size = other := by
  obtain ⟨pixels, distinct, length, listed⟩ := one
  obtain ⟨otherPixels, otherDistinct, otherLength, otherListed⟩ := two
  have same (node : Nat) : node ∈ pixels ↔ node ∈ otherPixels := by
    rw [listed, otherListed]
  rw [length, otherLength, ((List.perm_ext_iff_of_nodup distinct otherDistinct).mpr same).length_eq]

theorem RegionSize.moved {image : I2D} {level : Int} {pixel other size : Nat}
    (sized : RegionSize image level pixel size) (connected : InRegion image level pixel other) :
    RegionSize image level other size := by
  obtain ⟨pixels, distinct, length, listed⟩ := sized
  refine ⟨pixels, distinct, length, ?_⟩
  intro node
  rw [listed]
  constructor
  · exact Relation.EqvGen.trans _ _ _ (Relation.EqvGen.symm _ _ connected)
  · exact Relation.EqvGen.trans _ _ _ connected

theorem RegionSize.pos {image : I2D} {level : Int} {pixel size : Nat}
    (sized : RegionSize image level pixel size) : 0 < size := by
  obtain ⟨pixels, _distinct, length, listed⟩ := sized
  rw [length]
  exact List.length_pos_of_mem ((listed pixel).mpr (Relation.EqvGen.refl pixel))

/-- The region of a root pixel, which stays the same up to the value `next`. -/
structure Extremal (image : I2D) (region : Region) (next : Int) : Prop where
  value : region.value = image.data region.index
  below : region.value < next
  pixels : ∃ pixels : List Nat, pixels.Nodup ∧ region.area = pixels.length ∧
    ∀ level, region.value ≤ level → level < next → ∀ pixel,
      pixel ∈ pixels ↔ InRegion image level region.index pixel

structure Recorded (image : I2D) (done : List Nat) (tree : Tree) (parents : Forest Nat) :
    Prop where
  order : (tree.regions.map Region.index).Sublist tree.joins
  extremal : ∀ region ∈ tree.regions, region.index ∈ tree.joins ∧
    Extremal image region (image.data (parents.link region.index))
  numbered : ∀ (number : Nat) (region : Region), tree.regions[number]? = some region →
    (tree.forest region.index).region = number ∧ region.parent = number ∧
      region.areaTop = nel image ∧ region.areaBot = 0
  steps : ∀ node ∈ tree.joins, image.data node < image.data (parents.link node) →
    ∃ region ∈ tree.regions, region.index = node
  connected : ∀ node ∈ done, InRegion image (image.data (parents.link node)) node (parents.link node)
  distinct : tree.regions.Pairwise (fun earlier later =>
    ¬ (earlier.value = later.value ∧ InRegion image earlier.value earlier.index later.index))

structure Turn (image : I2D) (earlier : List Nat) (index : Nat) : Prop where
  fresh : index ∉ earlier
  inside : index < nel image
  lower : ∀ node ∈ earlier, image.data node ≤ image.data index
  complete : ∀ node < nel image, image.data node < image.data index → node ∈ earlier

/-- The neighbours looked at: those of earlier pixels, and of `index` the ones at the
first differences. -/
def Seen (image : I2D) (earlier : List Nat) (index : Nat) (offsets : List (Int × Int))
    (left right : Nat) : Prop :=
  (Touching image left right ∧ left ∈ earlier ∧ right ∈ earlier) ∨
    (left = index ∧ Touching image index right ∧ right ∈ earlier ∧
      ∃ offset ∈ offsets, neighborIndex image index offset = some right)

structure Growing (image : I2D) (earlier : List Nat) (index : Nat) (offsets : List (Int × Int))
    (tree : Tree) (parents : Forest Nat) : Prop where
  grown : Grown image (earlier ++ [index]) (Seen image earlier index offsets) tree parents
  current : tree.rindex ∈ earlier ++ [index]
  sameTree : parents.root tree.rindex = parents.root index
  level : image.data (parents.root index) = image.data index
  overtaken : parents.link tree.rindex ≠ tree.rindex →
    (tree.forest tree.rindex).area < nel image
  recorded : Recorded image (earlier ++ [index]) tree parents

section

variable {image : I2D} {earlier : List Nat} {index : Nat} {offsets : List (Int × Int)}
  {tree : Tree} {parents : Forest Nat}

theorem Seen.touching {left right : Nat} (seen : Seen image earlier index offsets left right) :
    Touching image left right ∧ left ∈ earlier ++ [index] ∧ right ∈ earlier := by
  rcases seen with ⟨touching, leftHere, rightHere⟩ | ⟨same, touching, rightHere, _offset⟩
  · exact ⟨touching, List.mem_append_left _ leftHere, rightHere⟩
  · rw [same]
    exact ⟨touching, List.mem_append_right _ List.mem_cons_self, rightHere⟩

private theorem seen_concat (offset : Int × Int) (left right : Nat) :
    Seen image earlier index (offsets ++ [offset]) left right ↔
      Seen image earlier index offsets left right ∨
        (left = index ∧ Touching image index right ∧ right ∈ earlier ∧
          neighborIndex image index offset = some right) := by
  unfold Seen
  simp only [List.mem_append, List.mem_singleton, or_and_right, exists_or, exists_eq_left,
    and_or_left, or_assoc]

theorem Turn.atMost (turn : Turn image earlier index) (node : Nat)
    (here : node ∈ earlier ++ [index]) : image.data node ≤ image.data index := by
  rcases mem_concat_cases here with before | same
  · exact turn.lower node before
  · exact Int.le_of_eq (by rw [same])

/-- The tree of a lower root is the component of its level set, up to the value that
is being added. -/
theorem Growing.component (growing : Growing image earlier index offsets tree parents)
    (turn : Turn image earlier index) (top : Nat) (here : top ∈ earlier ++ [index])
    (rooted : parents.link top = top) (level : Int) (above : image.data top ≤ level)
    (below : level < image.data index) (pixel : Nat) :
    pixel ∈ parents.members (earlier ++ [index]) top ↔ InRegion image level top pixel := by
  have itself : parents.root top = top := parents.root_self top rooted
  have low (node : Nat) (there : node ∈ earlier ++ [index]) (inTree : parents.root node = top) :
      image.data node ≤ level := by
    have rises := (growing.grown.root_above node there).2
    rw [inTree] at rises
    exact Int.le_trans rises above
  have within (left right : Nat) (inTree : parents.root left = parents.root top)
      (seen : Seen image earlier index offsets left right) : LevelEdge image level left right := by
    obtain ⟨touching, leftHere, rightHere⟩ := seen.touching
    have sameRoot : parents.root right = top := by
      rw [← (growing.grown.represents left right).mpr (Relation.EqvGen.rel _ _ seen), inTree,
        itself]
    rw [itself] at inTree
    exact ⟨touching, low left leftHere inTree, low right (List.mem_append_left _ rightHere) sameRoot⟩
  have closed (left right : Nat) (edge : LevelEdge image level left right) :
      parents.root left = parents.root top ↔ parents.root right = parents.root top := by
    obtain ⟨touching, leftLow, rightLow⟩ := edge
    have leftHere := turn.complete left touching.2.1 (Int.lt_of_le_of_lt leftLow below)
    have rightHere := turn.complete right touching.2.2.1 (Int.lt_of_le_of_lt rightLow below)
    have sameRoot := (growing.grown.represents left right).mpr
      (Relation.EqvGen.rel _ _ (Or.inl ⟨touching, leftHere, rightHere⟩))
    rw [sameRoot]
  have connected := growing.grown.represents.connected top within closed pixel
  rw [itself] at connected
  rw [parents.mem_members, InRegion, ← connected, and_iff_right_iff_imp]
  intro inTree
  by_contra absent
  have alone := (growing.grown.void pixel absent).2
  rw [parents.root_self pixel alone] at inTree
  rw [inTree] at absent
  exact absent here

/-! ### Saving a region -/

private theorem push_room {β : Type} (entries : List β) (entry : β)
    (room : entries.length < nel image) :
    push image entries entry = some (entries ++ [entry]) := if_pos room

private theorem attach_region (child parent node : Nat) (tree : Tree) (different : child ≠ parent) :
    ((attach child parent tree).forest node).region = (tree.forest node).region := by
  by_cases isChild : node = child
  · rw [isChild, attach_child _ _ _ different]
  · by_cases isParent : node = parent
    · rw [isParent, attach_parent _ _ _ different]
    · rw [attach_other _ _ _ _ isChild isParent]

variable {done : List Nat} {pairs : Nat → Nat → Prop} {child parent first second : Nat}

theorem Recorded.count (recorded : Recorded image done tree parents) :
    tree.regions.length ≤ tree.joins.length := by
  have count := recorded.order.length_le
  rwa [List.length_map] at count

theorem Recorded.shortened (recorded : Recorded image done tree parents) {after : Tree}
    (same : SameButShortcuts tree after) : Recorded image done after parents where
  order := by
    rw [same.regions, same.joins]
    exact recorded.order
  extremal := by
    rw [same.regions, same.joins]
    exact recorded.extremal
  numbered number region saved := by
    rw [same.regions] at saved
    rw [same.region]
    exact recorded.numbered number region saved
  steps := by
    rw [same.regions, same.joins]
    exact recorded.steps
  connected := recorded.connected
  distinct := by
    rw [same.regions]
    exact recorded.distinct

structure Saved (image : I2D) (tree after : Tree) (child parent : Nat) (region : Region) : Prop where
  index : region.index = child
  extremal : Extremal image region (image.data parent)
  number : (after.forest child).region = tree.regions.length
  fields : region.parent = tree.regions.length ∧ region.areaTop = nel image ∧ region.areaBot = 0
  apart : ∀ earlier ∈ tree.regions,
    ¬ (earlier.value = region.value ∧ InRegion image earlier.value earlier.index region.index)

theorem Recorded.older (recorded : Recorded image done tree parents)
    (grown : Grown image done pairs tree parents)
    (joins : Joins image done parents child parent first second) (region : Region)
    (member : region ∈ tree.regions) :
    region.index ≠ child ∧ region.index ∈ tree.joins ∧
      Extremal image region (image.data (joins.joined.link region.index)) := by
  obtain ⟨isJoined, extremal⟩ := recorded.extremal region member
  rw [joins.link_joined grown _ isJoined]
  refine ⟨?_, isJoined, extremal⟩
  intro same
  rw [same] at isJoined
  exact ((grown.joined child).mp isJoined).2 joins.childTop

private theorem Recorded.olderSteps (recorded : Recorded image done tree parents)
    (grown : Grown image done pairs tree parents)
    (joins : Joins image done parents child parent first second) (node : Nat)
    (isJoined : node ∈ tree.joins)
    (rises : image.data node < image.data (joins.joined.link node)) :
    ∃ region ∈ tree.regions, region.index = node := by
  rw [joins.link_joined grown _ isJoined] at rises
  exact recorded.steps node isJoined rises

private theorem Recorded.joined_connected (recorded : Recorded image done tree parents)
    (joins : Joins image done parents child parent first second)
    (connected : InRegion image (image.data parent) child parent) (node : Nat) (here : node ∈ done) :
    InRegion image (image.data (joins.joined.link node)) node (joins.joined.link node) := by
  by_cases same : node = child
  · rw [same, joins.link, Function.update_self]
    exact connected
  · rw [joins.link, Function.update_of_ne same]
    exact recorded.connected node here

theorem Recorded.joinLevel (recorded : Recorded image done tree parents)
    (grown : Grown image done pairs tree parents)
    (joins : Joins image done parents child parent first second)
    (connected : InRegion image (image.data parent) child parent) (after : Tree)
    (joined : after.joins = tree.joins ++ [child])
    (kept : ∀ node, node ≠ child → (after.forest node).region = (tree.forest node).region)
    (level : image.data child = image.data parent) (sameRegions : after.regions = tree.regions) :
    Recorded image done after joins.joined := by
  constructor
  case order =>
    rw [sameRegions, joined]
    exact recorded.order.trans (List.sublist_append_left _ _)
  case extremal =>
    rw [sameRegions, joined]
    intro region member
    obtain ⟨_notChild, isJoined, extremal⟩ := recorded.older grown joins region member
    exact ⟨List.mem_append_left _ isJoined, extremal⟩
  case numbered =>
    rw [sameRegions]
    intro number region found
    rw [kept _ (recorded.older grown joins region (List.mem_of_getElem? found)).1]
    exact recorded.numbered number region found
  case steps =>
    intro node listed rises
    rw [sameRegions]
    rw [joined] at listed
    rcases mem_concat_cases listed with isJoined | same
    · exact recorded.olderSteps grown joins node isJoined rises
    · rw [same, joins.link, Function.update_self, level] at rises
      exact absurd rises (Int.lt_irrefl _)
  case connected => exact recorded.joined_connected joins connected
  case distinct =>
    rw [sameRegions]
    exact recorded.distinct

theorem Recorded.joinSaved (recorded : Recorded image done tree parents)
    (grown : Grown image done pairs tree parents)
    (joins : Joins image done parents child parent first second)
    (connected : InRegion image (image.data parent) child parent) (after : Tree)
    (joined : after.joins = tree.joins ++ [child])
    (kept : ∀ node, node ≠ child → (after.forest node).region = (tree.forest node).region)
    (region : Region) (regions : after.regions = tree.regions ++ [region])
    (saved : Saved image tree after child parent region) :
    Recorded image done after joins.joined := by
  constructor
  case order =>
    rw [regions, joined, List.map_append, List.map_singleton, saved.index]
    exact recorded.order.append (List.Sublist.refl _)
  case extremal =>
    intro other member
    rw [regions] at member
    rw [joined]
    rcases List.mem_append.mp member with before | last
    · obtain ⟨_notChild, isJoined, extremal⟩ := recorded.older grown joins other before
      exact ⟨List.mem_append_left _ isJoined, extremal⟩
    · rw [List.mem_singleton.mp last, saved.index, joins.link, Function.update_self]
      exact ⟨List.mem_append_right _ List.mem_cons_self, saved.extremal⟩
  case numbered =>
    intro number other found
    rw [regions] at found
    rcases Nat.lt_or_ge number tree.regions.length with before | behind
    · rw [List.getElem?_append_left before] at found
      rw [kept _ (recorded.older grown joins other (List.mem_of_getElem? found)).1]
      exact recorded.numbered number other found
    · rw [List.getElem?_append_right behind, List.getElem?_singleton] at found
      split at found
      · rename_i isFirst
        have number_eq : number = tree.regions.length := by omega
        rw [← Option.some.inj found, saved.index, number_eq, saved.number]
        exact ⟨rfl, saved.fields⟩
      · cases found
  case steps =>
    intro node listed rises
    rw [regions]
    rw [joined] at listed
    rcases mem_concat_cases listed with isJoined | same
    · obtain ⟨other, member, isNode⟩ := recorded.olderSteps grown joins node isJoined rises
      exact ⟨other, List.mem_append_left _ member, isNode⟩
    · rw [same]
      exact ⟨region, List.mem_append_right _ List.mem_cons_self, saved.index⟩
  case connected => exact recorded.joined_connected joins connected
  case distinct =>
    rw [regions, List.pairwise_append]
    refine ⟨recorded.distinct, List.pairwise_singleton _ _, ?_⟩
    intro earlier member later last
    rw [List.mem_singleton.mp last]
    exact saved.apart earlier member

def savedTree (image : I2D) (tree : Tree) (index : Nat) : Tree :=
  { tree with
    forest := Function.update tree.forest index
      { tree.forest index with region := tree.regions.length }
    regions := tree.regions ++ [regionAt image tree.forest tree.regions.length index] }

theorem recordRegion_room (index : Nat) (room : tree.regions.length < nel image) :
    recordRegion image tree index = some (savedTree image tree index) := by
  rw [recordRegion, push_room _ _ room]
  rfl

private theorem savedTree_kept {field : Type} (index node : Nat) (read : Node → field)
    (kept : ∀ (old : Node) (number : Nat), read { old with region := number } = read old) :
    read ((savedTree image tree index).forest node) = read (tree.forest node) := by
  rw [savedTree]
  dsimp only
  by_cases same : node = index
  · rw [same, Function.update_self, kept]
  · rw [Function.update_of_ne same]

theorem Grown.saved (grown : Grown image done pairs tree parents) (index : Nat) :
    Grown image done pairs (savedTree image tree index) parents := by
  apply grown.rebuilt
  · exact fun node => savedTree_kept index node Node.parent (fun _old _number => rfl)
  · exact fun node => savedTree_kept index node Node.area (fun _old _number => rfl)
  · rfl
  · obtain ⟨shortcuts, shortens⟩ := grown.shortens
    refine ⟨shortcuts, ?_⟩
    have shortcut (node : Nat) : ((savedTree image tree index).forest node).shortcut =
        (tree.forest node).shortcut :=
      savedTree_kept index node Node.shortcut (fun _old _number => rfl)
    constructor
    case link =>
      intro node here
      rw [shortcut]
      exact shortens.link node here
    case stays =>
      intro node here
      rw [shortcut]
      exact shortens.stays node here
    case outside => exact shortens.outside
    case roots => exact shortens.roots

private theorem Seen.levelEdge (turn : Turn image earlier index) {left right : Nat}
    (seen : Seen image earlier index offsets left right) :
    LevelEdge image (image.data index) left right := by
  obtain ⟨touching, leftHere, rightHere⟩ := seen.touching
  exact ⟨touching, turn.atMost left leftHere, turn.lower right rightHere⟩

private theorem seen_addPair (offset : Int × Int) (nindex : Nat)
    (touching : Touching image index nindex)
    (present : nindex ∈ earlier) (found : neighborIndex image index offset = some nindex) :
    addPair (Seen image earlier index offsets) index nindex =
      Seen image earlier index (offsets ++ [offset]) := by
  funext left right
  rw [addPair, seen_concat, found, eq_iff_iff]
  apply or_congr_right
  constructor
  · intro pair
    rw [pair.2]
    exact ⟨pair.1, touching, present, rfl⟩
  · intro pair
    exact ⟨pair.1, (Option.some.inj pair.2.2.2).symm⟩

theorem Grown.inRegion (turn : Turn image earlier index)
    (grown : Grown image done (Seen image earlier index offsets) tree parents) (left right : Nat)
    (sameTree : parents.root left = parents.root right) :
    InRegion image (image.data index) left right := by
  apply Relation.EqvGen.mono _ _ _ ((grown.represents left right).mp sameTree)
  intro one other seen
  exact seen.levelEdge turn

private theorem Grown.lift (grown : Grown image done pairs tree parents) {more : Nat → Nat → Prop}
    (represents : parents.Represents more) : Grown image done more tree parents :=
  { grown with represents := represents }

/-- A lower root that a join puts below the pixel's root is saved as its component. -/
theorem Growing.saved (growing : Growing image earlier index offsets tree parents)
    (turn : Turn image earlier index)
    (joins : Joins image (earlier ++ [index]) parents child parent first second)
    (parentLevel : image.data parent = image.data index)
    (lower : image.data child < image.data index) (after : Tree)
    (forest : after.forest = (savedTree image (attach child parent tree) child).forest) :
    Saved image tree after child parent
      (regionAt image (attach child parent tree).forest tree.regions.length child) := by
  have component := growing.component turn child joins.childHere joins.childTop
  constructor
  case index => rfl
  case extremal =>
    constructor
    case value => rfl
    case below =>
      rw [parentLevel]
      exact lower
    case pixels =>
      refine ⟨parents.members (earlier ++ [index]) child, ?_, ?_, ?_⟩
      · exact growing.grown.distinct.filter _
      · rw [regionAt]
        dsimp only
        rw [attach_child _ _ _ joins.different]
        exact growing.grown.area child joins.childHere joins.childTop
      · intro level above below pixel
        rw [parentLevel] at below
        exact component level above below pixel
  case number =>
    rw [forest, savedTree]
    dsimp only
    rw [Function.update_self]
    rfl
  case fields => exact ⟨rfl, rfl, rfl⟩
  case apart =>
    intro old member both
    obtain ⟨sameValue, connected⟩ := both
    obtain ⟨isJoined, extremal⟩ := growing.recorded.extremal old member
    have sameLevel : old.value = image.data child := sameValue
    rw [sameLevel] at connected
    -- the old root would be in the tree of `child` and yet below something higher
    have inTree := (component (image.data child) (Int.le_refl _) lower old.index).mpr
      (Relation.EqvGen.symm _ _ connected)
    obtain ⟨oldHere, oldRoot⟩ := (parents.mem_members _ _ _).mp inTree
    have rises := (growing.grown.root_above _ (growing.grown.stays _ oldHere)).2
    rw [parents.root_link, oldRoot, ← sameLevel] at rises
    exact absurd extremal.below (Int.not_lt.mpr rises)

private theorem Growing.index_root (growing : Growing image earlier index offsets tree parents)
    (rooted : parents.link tree.rindex = tree.rindex) : parents.root index = tree.rindex := by
  rw [← growing.sameTree, parents.root_self _ rooted]

private theorem Growing.rindex_level (growing : Growing image earlier index offsets tree parents)
    (rooted : parents.link tree.rindex = tree.rindex) :
    image.data tree.rindex = image.data index := by
  rw [← growing.index_root rooted]
  exact growing.level

theorem Growing.joinBelow (growing : Growing image earlier index offsets tree parents)
    (turn : Turn image earlier index) (rooted : parents.link tree.rindex = tree.rindex)
    (offset : Int × Int) (nindex : Nat)
    (pair : addPair (Seen image earlier index offsets) index nindex =
      Seen image earlier index (offsets ++ [offset]))
    (joins : Joins image (earlier ++ [index]) parents tree.rindex (parents.root nindex) index nindex)
    (level : image.data (parents.root nindex) = image.data index) :
    Growing image earlier index (offsets ++ [offset])
      { attach tree.rindex (parents.root nindex) tree with joins := tree.joins ++ [tree.rindex] }
      joins.joined := by
  have grown := growing.grown
  have indexRoot := growing.index_root rooted
  have upwards : parents.root nindex ≠ tree.rindex := joins.different.symm
  have nextGrown := grown.attach joins
  rw [pair] at nextGrown
  have connected : InRegion image (image.data (parents.root nindex)) tree.rindex
      (parents.root nindex) := by
    rw [level]
    apply nextGrown.inRegion turn
    rw [joins.root, joins.root, parents.root_self _ rooted, if_pos rfl, parents.root_root,
      if_neg upwards]
  constructor
  case grown => exact nextGrown
  case current => exact growing.current
  case sameTree =>
    change joins.joined.root tree.rindex = joins.joined.root index
    rw [joins.root, joins.root, growing.sameTree]
  case level => rw [joins.root, if_pos indexRoot, level]
  case overtaken =>
    intro _passed
    change ((attach tree.rindex (parents.root nindex) tree).forest tree.rindex).area < _
    rw [attach_child _ _ _ joins.different]
    exact grown.area_lt tree.rindex growing.current rooted _ joins.parentHere
      (by rw [parents.root_root]; exact upwards)
  case recorded =>
    apply growing.recorded.joinLevel grown joins connected _ rfl
    · intro node elsewhere
      exact attach_region _ _ _ _ joins.different
    · exact (growing.rindex_level rooted).trans level.symm
    · rfl

theorem Growing.joinAbove (growing : Growing image earlier index offsets tree parents)
    (turn : Turn image earlier index) (rooted : parents.link tree.rindex = tree.rindex)
    (offset : Int × Int) (nindex : Nat)
    (pair : addPair (Seen image earlier index offsets) index nindex =
      Seen image earlier index (offsets ++ [offset]))
    (joins : Joins image (earlier ++ [index]) parents (parents.root nindex) tree.rindex index nindex)
    (lower : image.data (parents.root nindex) < image.data index) :
    Growing image earlier index (offsets ++ [offset])
      { savedTree image (attach (parents.root nindex) tree.rindex tree) (parents.root nindex) with
        joins := tree.joins ++ [parents.root nindex] } joins.joined := by
  have grown := growing.grown
  have rindexLevel := growing.rindex_level rooted
  have stillRooted : joins.joined.link tree.rindex = tree.rindex := by
    rw [joins.link, Function.update_of_ne joins.different.symm, rooted]
  have attached := grown.attach joins
  rw [pair] at attached
  have connected : InRegion image (image.data tree.rindex) (parents.root nindex) tree.rindex := by
    rw [rindexLevel]
    apply attached.inRegion turn
    rw [joins.root, joins.root, parents.root_root, if_pos rfl, parents.root_self _ rooted,
      if_neg joins.different.symm]
  constructor
  case grown => exact attached.saved (parents.root nindex)
  case current => exact growing.current
  case sameTree =>
    change joins.joined.root tree.rindex = joins.joined.root index
    rw [joins.root, joins.root, growing.sameTree]
  case level =>
    rw [joins.root, if_neg (by rw [growing.index_root rooted]; exact joins.different.symm),
      growing.level]
  case overtaken =>
    intro passed
    exact absurd stillRooted passed
  case recorded =>
    refine growing.recorded.joinSaved grown joins connected _ rfl ?_ _ rfl
      (growing.saved turn joins rindexLevel lower _ rfl)
    intro node elsewhere
    dsimp only
    rw [savedTree]
    dsimp only
    rw [Function.update_of_ne elsewhere]
    exact attach_region _ _ _ _ joins.different

/-- The join of the tree of the pixel with the tree of a neighbour. The root stays in
`rindex` unless the neighbour's tree has a root of the same value. -/
theorem Growing.joinTrees (growing : Growing image earlier index offsets tree parents)
    (turn : Turn image earlier index) (rooted : parents.link tree.rindex = tree.rindex)
    (offset : Int × Int) (nindex : Nat) (touching : Touching image index nindex)
    (present : nindex ∈ earlier) (found : neighborIndex image index offset = some nindex) :
    ∃ next nextParents,
      Mser.joinTrees image (image.data index) (parents.root nindex) tree = some next ∧
      Growing image earlier index (offsets ++ [offset]) next nextParents ∧
      (nextParents.link next.rindex = next.rindex ↔
        parents.root nindex = parents.root index ∨
          image.data (parents.root nindex) ≠ image.data index) := by
  have grown := growing.grown
  have pair : addPair (Seen image earlier index offsets) index nindex =
      Seen image earlier index (offsets ++ [offset]) :=
    seen_addPair offset nindex touching present found
  have here : nindex ∈ earlier ++ [index] := List.mem_append_left _ present
  have indexHere : index ∈ earlier ++ [index] := List.mem_append_right _ List.mem_cons_self
  have indexRoot := growing.index_root rooted
  have rindexLevel := growing.rindex_level rooted
  have nrindexHere := (grown.root_above nindex here).1
  have roomJoins : tree.joins.length < nel image :=
    Nat.lt_of_lt_of_le (grown.joins_length index indexHere) grown.done_length
  rw [Mser.joinTrees]
  by_cases same : tree.rindex = parents.root nindex
  · rw [if_neg (not_not_intro same)]
    refine ⟨tree, parents, rfl, ?_, ?_⟩
    · refine ⟨?_, growing.current, growing.sameTree, growing.level, growing.overtaken,
        growing.recorded⟩
      rw [← pair]
      exact grown.lift (grown.represents.known index nindex (indexRoot.trans same))
    · exact iff_of_true rooted (Or.inl (same.symm.trans indexRoot.symm))
  · rw [if_pos same]
    have upwards : parents.root nindex ≠ tree.rindex := fun again => same again.symm
    by_cases level : image.data (parents.root nindex) = image.data index
    · have joins : Joins image (earlier ++ [index]) parents tree.rindex (parents.root nindex)
          index nindex :=
        { different := same
          childHere := growing.current
          parentHere := nrindexHere
          childTop := rooted
          parentTop := parents.link_root nindex
          rises := Int.le_of_eq (rindexLevel.trans level.symm)
          ends := Or.inl ⟨indexRoot, rfl⟩ }
      dsimp only
      rw [if_pos level]
      dsimp only [Option.bind_eq_bind]
      rw [show (attach tree.rindex (parents.root nindex) tree).joins = tree.joins from rfl,
        push_room _ _ roomJoins]
      refine ⟨_, joins.joined, rfl, growing.joinBelow turn rooted offset nindex pair joins level, ?_⟩
      apply iff_of_false
      · change joins.joined.link tree.rindex ≠ tree.rindex
        rw [joins.link, Function.update_self]
        exact upwards
      · rintro (again | differs)
        · exact same (indexRoot.symm.trans again.symm)
        · exact differs level
    · have lower : image.data (parents.root nindex) < image.data index :=
        Int.lt_iff_le_and_ne.mpr ⟨turn.atMost _ nrindexHere, level⟩
      have joins : Joins image (earlier ++ [index]) parents (parents.root nindex) tree.rindex
          index nindex :=
        { different := upwards
          childHere := nrindexHere
          parentHere := growing.current
          childTop := parents.link_root nindex
          parentTop := rooted
          rises := by
            rw [rindexLevel]
            exact Int.le_of_lt lower
          ends := Or.inr ⟨rfl, indexRoot⟩ }
      have roomRegions : (attach (parents.root nindex) tree.rindex tree).regions.length <
          nel image := Nat.lt_of_le_of_lt growing.recorded.count roomJoins
      dsimp only
      rw [if_neg level, if_pos level, recordRegion_room _ roomRegions]
      dsimp only [Option.bind_eq_bind, Option.bind_some]
      rw [show (savedTree image (attach (parents.root nindex) tree.rindex tree)
          (parents.root nindex)).joins = tree.joins from rfl, push_room _ _ roomJoins]
      refine ⟨_, joins.joined, rfl, growing.joinAbove turn rooted offset nindex pair joins lower, ?_⟩
      apply iff_of_true
      · change joins.joined.link tree.rindex = tree.rindex
        rw [joins.link, Function.update_of_ne same, rooted]
      · exact Or.inr level

def Looked (image : I2D) (earlier : List Nat) (index : Nat) (offset : Int × Int)
    (nindex : Nat) : Prop :=
  Touching image index nindex ∧ nindex ∈ earlier ∧ neighborIndex image index offset = some nindex

/-- The neighbour's tree is another one and has a pixel of the same value. -/
def Overtakes (image : I2D) (earlier : List Nat) (index : Nat) (offsets : List (Int × Int))
    (nindex : Nat) : Prop :=
  ¬ Relation.EqvGen (Seen image earlier index offsets) index nindex ∧
    ∃ pixel, Relation.EqvGen (Seen image earlier index offsets) nindex pixel ∧
      image.data pixel = image.data index

private theorem Growing.overtakes_iff (growing : Growing image earlier index offsets tree parents)
    (turn : Turn image earlier index) (nindex : Nat) (present : nindex ∈ earlier) :
    Overtakes image earlier index offsets nindex ↔
      ¬ (parents.root nindex = parents.root index ∨
        image.data (parents.root nindex) ≠ image.data index) := by
  have grown := growing.grown
  rw [Overtakes, ← grown.represents, not_or, not_not, eq_comm]
  apply and_congr_right
  intro _apart
  constructor
  · intro same
    obtain ⟨pixel, inTree, level⟩ := same
    rw [← grown.represents] at inTree
    have here : pixel ∈ earlier ++ [index] := by
      by_contra absent
      have alone := parents.root_self pixel (grown.void pixel absent).2
      rw [alone] at inTree
      rw [← inTree] at absent
      exact absent (grown.root_above nindex (List.mem_append_left _ present)).1
    have rises := grown.root_above pixel here
    rw [← inTree, level] at rises
    exact Int.le_antisymm (turn.atMost _ rises.1) rises.2
  · intro level
    refine ⟨parents.root nindex, ?_, level⟩
    rw [← grown.represents, parents.root_root]

private theorem Growing.looked_none (growing : Growing image earlier index offsets tree parents)
    (offset : Int × Int) (unlooked : ∀ nindex, ¬ Looked image earlier index offset nindex) :
    Growing image earlier index (offsets ++ [offset]) tree parents := by
  have same : Seen image earlier index (offsets ++ [offset]) = Seen image earlier index offsets := by
    funext left right
    rw [eq_iff_iff, seen_concat]
    apply or_iff_left
    intro last
    exact unlooked right last.2
  constructor
  case grown =>
    rw [same]
    exact growing.grown
  case current => exact growing.current
  case sameTree => exact growing.sameTree
  case level => exact growing.level
  case overtaken => exact growing.overtaken
  case recorded => exact growing.recorded

theorem Growing.shortened (growing : Growing image earlier index offsets tree parents)
    {after : Tree} (same : SameButShortcuts tree after)
    (grown : Grown image (earlier ++ [index]) (Seen image earlier index offsets) after parents)
    (current : after.rindex ∈ earlier ++ [index])
    (sameTree : parents.root after.rindex = parents.root index)
    (rooted : parents.link after.rindex = after.rindex) :
    Growing image earlier index offsets after parents :=
  ⟨grown, current, sameTree, growing.level, fun passed => absurd rooted passed,
    growing.recorded.shortened same⟩

theorem Growing.findRoots (growing : Growing image earlier index offsets tree parents)
    (nindex : Nat) (here : nindex ∈ earlier ++ [index]) :
    ∃ first second, findRoot image tree.rindex tree = some (parents.root tree.rindex, first) ∧
      findRoot image nindex { first with rindex := parents.root tree.rindex } =
        some (parents.root nindex, second) ∧
      Growing image earlier index offsets second parents ∧
      parents.link second.rindex = second.rindex := by
  have grown := growing.grown
  obtain ⟨first, firstFound, firstSame, _firstIndex, firstGrown⟩ :=
    grown.findRoot tree.rindex growing.current
  let moved : Tree := { first with rindex := parents.root tree.rindex }
  have movedGrown : Grown image (earlier ++ [index]) (Seen image earlier index offsets) moved
      parents := firstGrown.rebuilt moved (fun _node => rfl) (fun _node => rfl) rfl
    firstGrown.shortens
  obtain ⟨second, secondFound, secondSame, secondIndex, secondGrown⟩ :=
    movedGrown.findRoot nindex here
  have movedSame : SameButShortcuts tree moved :=
    ⟨firstSame.parent, firstSame.area, firstSame.region, firstSame.regions, firstSame.joins⟩
  have rindex : second.rindex = parents.root tree.rindex := secondIndex
  have rooted : parents.link second.rindex = second.rindex := by
    rw [rindex]
    exact parents.link_root _
  refine ⟨first, second, firstFound, secondFound, ?_, rooted⟩
  apply growing.shortened (movedSame.trans secondSame) secondGrown _ _ rooted
  · rw [rindex]
    exact (grown.root_above tree.rindex growing.current).1
  · rw [rindex, parents.root_root, growing.sameTree]

theorem Growing.processNeighbor_none (growing : Growing image earlier index offsets tree parents)
    (turn : Turn image earlier index) (offset : Int × Int) (listed : offset ∈ neighborOffsets)
    (unlooked : ∀ nindex, ¬ Looked image earlier index offset nindex) :
    Mser.processNeighbor image index (image.data index) offset tree = some tree := by
  rw [Mser.processNeighbor]
  split
  · rfl
  · rename_i nindex found
    by_cases different : nindex = index
    · rw [if_neg (fun both => both.1 different)]
    · rw [if_neg]
      intro both
      apply unlooked nindex
      refine ⟨?_, ?_, found⟩
      · exact (neighborIndex_touching image index nindex turn.inside).mp
          ⟨⟨offset, listed, found⟩, different⟩
      · rcases mem_concat_cases ((growing.grown.present_iff nindex).mp both.2) with before | same
        · exact before
        · exact absurd same different

/-- A neighbour that is looked at leaves the root in `rindex` unless its tree overtakes
the tree of the pixel. -/
theorem Growing.processNeighbor (growing : Growing image earlier index offsets tree parents)
    (turn : Turn image earlier index) (offset : Int × Int) (listed : offset ∈ neighborOffsets) :
    ∃ next nextParents,
      Mser.processNeighbor image index (image.data index) offset tree = some next ∧
      Growing image earlier index (offsets ++ [offset]) next nextParents ∧
      (∀ nindex, Looked image earlier index offset nindex →
        (nextParents.link next.rindex = next.rindex ↔
          ¬ Overtakes image earlier index offsets nindex)) ∧
      ((∀ nindex, ¬ Looked image earlier index offset nindex) →
        (nextParents.link next.rindex = next.rindex ↔
          parents.link tree.rindex = tree.rindex)) := by
  by_cases looked : ∃ nindex, Looked image earlier index offset nindex
  · obtain ⟨nindex, touching, present, found⟩ := looked
    have here : nindex ∈ earlier ++ [index] := List.mem_append_left _ present
    obtain ⟨first, second, firstFound, secondFound, secondGrowing, rooted⟩ :=
      growing.findRoots nindex here
    obtain ⟨next, nextParents, joined, nextGrowing, settled⟩ :=
      secondGrowing.joinTrees turn rooted offset nindex touching present found
    refine ⟨next, nextParents, ?_, nextGrowing, ?_, ?_⟩
    · rw [Mser.processNeighbor, found]
      dsimp only
      rw [if_pos ⟨touching.1.symm, (growing.grown.present_iff nindex).mpr here⟩, firstFound]
      dsimp only [Option.bind_eq_bind, Option.bind_some]
      rw [secondFound]
      exact joined
    · intro other otherLooked
      have same : other = nindex := Option.some.inj (otherLooked.2.2.symm.trans found)
      rw [same, growing.overtakes_iff turn nindex present, not_not]
      exact settled
    · intro unlooked
      exact absurd ⟨touching, present, found⟩ (unlooked nindex)
  · have unlooked := not_exists.mp looked
    refine ⟨tree, parents, growing.processNeighbor_none turn offset listed unlooked,
      growing.looked_none offset unlooked, ?_, ?_⟩
    · intro nindex isLooked
      exact absurd isLooked (unlooked nindex)
    · intro _unlooked
      exact Iff.rfl

/-- Where the last neighbour that is looked at decides what `rindex` is in the end. -/
structure Settles (image : I2D) (earlier : List Nat) (index : Nat) (offsets rest : List (Int × Int))
    (before after : Prop) : Prop where
  looked : ∀ (first : List (Int × Int)) (offset : Int × Int) (last : List (Int × Int)) (nindex : Nat),
    rest = first ++ offset :: last → Looked image earlier index offset nindex →
    (∀ later ∈ last, ∀ other, ¬ Looked image earlier index later other) →
    (after ↔ ¬ Overtakes image earlier index (offsets ++ first) nindex)
  unlooked : (∀ offset ∈ rest, ∀ nindex, ¬ Looked image earlier index offset nindex) →
    (after ↔ before)

theorem Growing.neighborLoop (turn : Turn image earlier index) (rest : List (Int × Int))
    (listed : ∀ offset ∈ rest, offset ∈ neighborOffsets)
    (growing : Growing image earlier index offsets tree parents) :
    ∃ next nextParents,
      Mser.neighborLoop image index (image.data index) rest tree = some next ∧
      Growing image earlier index (offsets ++ rest) next nextParents ∧
      Settles image earlier index offsets rest (parents.link tree.rindex = tree.rindex)
        (nextParents.link next.rindex = next.rindex) := by
  induction rest generalizing offsets tree parents with
  | nil =>
      refine ⟨tree, parents, rfl, ?_, ?_⟩
      · rw [List.append_nil]
        exact growing
      · constructor
        case looked =>
          intro first offset last nindex split
          exact absurd split (by simp)
        case unlooked => exact fun _none => Iff.rfl
  | cons offset rest ih =>
      obtain ⟨middle, middleParents, processed, middleGrowing, looked, unlooked⟩ :=
        growing.processNeighbor turn offset (listed offset List.mem_cons_self)
      obtain ⟨next, nextParents, looped, nextGrowing, settles⟩ :=
        ih (fun later member => listed later (List.mem_cons_of_mem offset member)) middleGrowing
      refine ⟨next, nextParents, ?_, ?_, ?_⟩
      · rw [Mser.neighborLoop, processed]
        exact looped
      · rw [List.append_cons]
        exact nextGrowing
      · constructor
        case looked =>
          intro first one last nindex split isLooked quiet
          cases first with
          | nil =>
              obtain ⟨sameOffset, sameRest⟩ := List.cons.inj split
              rw [← sameOffset] at isLooked
              rw [← sameRest] at quiet
              rw [settles.unlooked quiet, List.append_nil]
              exact looked nindex isLooked
          | cons passed first =>
              obtain ⟨sameOffset, sameRest⟩ := List.cons.inj split
              rw [settles.looked first one last nindex sameRest isLooked quiet, ← sameOffset,
                List.append_assoc]
              rfl
        case unlooked =>
          intro none
          rw [settles.unlooked (fun later member => none later (List.mem_cons_of_mem offset member))]
          exact unlooked (none offset List.mem_cons_self)

/-! ### The loop over the pixels -/

def Scanned (image : I2D) (done : List Nat) (left right : Nat) : Prop :=
  Touching image left right ∧ left ∈ done ∧ right ∈ done

private theorem seen_nil : Seen image earlier index [] = Scanned image earlier := by
  funext left right
  rw [eq_iff_iff, Seen, Scanned]
  apply or_iff_left
  intro last
  obtain ⟨_same, _touching, _present, offset, absent, _found⟩ := last
  cases absent

theorem Grown.scanned (turn : Turn image earlier index)
    (grown : Grown image done (Seen image earlier index neighborOffsets) tree parents) :
    Grown image done (Scanned image (earlier ++ [index])) tree parents := by
  apply grown.lift
  apply grown.represents.of_generates
  · intro left right seen
    obtain ⟨touching, leftHere, rightHere⟩ := seen.touching
    exact Relation.EqvGen.rel _ _ ⟨touching, leftHere, List.mem_append_left _ rightHere⟩
  · have ofIndex (other : Nat) (touching : Touching image index other) (present : other ∈ earlier) :
        Seen image earlier index neighborOffsets index other := by
      obtain ⟨⟨offset, listed, found⟩, _different⟩ :=
        (neighborIndex_touching image index other turn.inside).mpr touching
      exact Or.inr ⟨rfl, touching, present, offset, listed, found⟩
    intro left right scanned
    obtain ⟨touching, leftHere, rightHere⟩ := scanned
    rcases mem_concat_cases leftHere with leftBefore | leftIndex
    · rcases mem_concat_cases rightHere with rightBefore | rightIndex
      · exact Relation.EqvGen.rel _ _ (Or.inl ⟨touching, leftBefore, rightBefore⟩)
      · rw [rightIndex] at touching ⊢
        exact Relation.EqvGen.symm _ _ (Relation.EqvGen.rel _ _ (ofIndex left touching.symm leftBefore))
    · rcases mem_concat_cases rightHere with rightBefore | rightIndex
      · rw [leftIndex] at touching ⊢
        exact Relation.EqvGen.rel _ _ (ofIndex right touching rightBefore)
      · rw [leftIndex, rightIndex]
        exact Relation.EqvGen.refl index

theorem Recorded.pushPixel (recorded : Recorded image earlier tree parents)
    (rooted : parents.link index = index) :
    Recorded image (earlier ++ [index]) (pushPixel tree index) parents where
  order := recorded.order
  extremal := recorded.extremal
  numbered number region saved := by
    have kept : ((Mser.pushPixel tree index).forest region.index).region =
        (tree.forest region.index).region := by
      by_cases same : region.index = index
      · rw [same, pushPixel_here]
      · rw [pushPixel_other _ _ _ same]
    rw [kept]
    exact recorded.numbered number region saved
  steps := recorded.steps
  connected := by
    intro node here
    rcases mem_concat_cases here with before | same
    · exact recorded.connected node before
    · rw [same, rooted]
      exact Relation.EqvGen.refl index
  distinct := recorded.distinct

private theorem Growing.ofPixel (turn : Turn image earlier index)
    (grown : Grown image earlier (Scanned image earlier) tree parents)
    (recorded : Recorded image earlier tree parents) :
    Growing image earlier index [] (pushPixel tree index) parents := by
  have rooted : parents.link index = index := (grown.void index turn.fresh).2
  constructor
  case grown =>
    rw [seen_nil]
    exact grown.pushPixel index turn.fresh turn.inside
  case current => exact List.mem_append_right _ List.mem_cons_self
  case sameTree => rfl
  case level => rw [parents.root_self index rooted]
  case overtaken => exact fun passed => absurd rooted passed
  case recorded => exact recorded.pushPixel rooted

theorem processPixel_grown (turn : Turn image earlier index)
    (grown : Grown image earlier (Scanned image earlier) tree parents)
    (recorded : Recorded image earlier tree parents) :
    ∃ next nextParents, processPixel image ⟨image.data index, index⟩ tree = some next ∧
      Growing image earlier index neighborOffsets next nextParents ∧
      Grown image (earlier ++ [index]) (Scanned image (earlier ++ [index])) next nextParents ∧
      Settles image earlier index [] neighborOffsets True
        (nextParents.link next.rindex = next.rindex) := by
  have rooted : parents.link index = index := (grown.void index turn.fresh).2
  obtain ⟨next, nextParents, ran, growing, settles⟩ := (Growing.ofPixel turn grown
    recorded).neighborLoop turn neighborOffsets (fun _offset listed => listed)
  rw [List.nil_append] at growing
  refine ⟨next, nextParents, ran, growing, growing.grown.scanned turn, settles.looked, ?_⟩
  intro none
  rw [settles.unlooked none]
  exact iff_of_true rooted trivial

end

end BlackboxProfiling.SdVbs.Mser
