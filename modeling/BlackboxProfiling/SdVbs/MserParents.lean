import BlackboxProfiling.SdVbs.MserTree

/-!
The pass of `mser.c` that finds the parent of each region: the smallest region around
it.
-/

namespace BlackboxProfiling.SdVbs.Mser

open DisjointSets (Forest)

/-- The climb from the root pixel of region `i`. A pixel without a parent is no result. -/
def climbToParent (image : I2D) (tree : Tree) (i : Nat) :
    Nat → Nat → Int → Nat → Option Nat
  | 0, _index, _value, _j => none
  | fuel + 1, index, value, j =>
      if j = i then
        (tree.forest index).parent.bind fun pindex =>
          if index = pindex then some (tree.forest index).region
          else climbToParent image tree i fuel pindex (image.data pindex)
            (if value < image.data pindex then (tree.forest index).region else j)
      else some j

/-- The pass over the regions from number `i` on. A climb takes fewer steps than there
are pixels. -/
def parentsFrom (image : I2D) (tree : Tree) : Nat → List Region → Option (List Region)
  | _i, [] => some []
  | i, region :: regions => do
      let j ← climbToParent image tree i (nel image + 2) region.index region.value i
      let later ← parentsFrom image tree (i + 1) regions
      return { region with parent := j } :: later

def regionParents (image : I2D) (tree : Tree) : Option (List Region) :=
  parentsFrom image tree 0 tree.regions

section

variable {image : I2D} {tree : Tree} {parents : Forest Nat}

def IsRoot (image : I2D) (parents : Forest Nat) (node : Nat) : Prop :=
  parents.link node = node ∨ image.data node < image.data (parents.link node)

theorem Extremals.firstRoot (extremals : Extremals image tree parents) (node : Nat)
    (inside : node < nel image) :
    ∃ top, parents.Below node top ∧ top < nel image ∧ image.data top = image.data node ∧
      IsRoot image parents top ∧ InRegion image (image.data node) node top ∧
      ∀ i, (tree.forest top).region ≠ i → ∀ fuel, (parents.path node).length + 1 < fuel →
        climbToParent image tree i fuel node (image.data node) i =
          some (tree.forest top).region := by
  induction node using parents.link_induction with
  | rooted node rooted =>
      refine ⟨node, Forest.Below.here node, inside, rfl, Or.inl rooted, Relation.EqvGen.refl _, ?_⟩
      intro i _different fuel enough
      cases fuel with
      | zero => cases enough
      | succ fuel =>
          rw [climbToParent, if_pos rfl, extremals.link node inside, rooted]
          dsimp only [Option.bind_some]
          rw [if_pos rfl]
  | step node passed ih =>
      have linkInside := extremals.stays node inside
      have enters (i fuel : Nat) :
          climbToParent image tree i (fuel + 1) node (image.data node) i =
            climbToParent image tree i fuel (parents.link node) (image.data (parents.link node))
              (if image.data node < image.data (parents.link node) then
                (tree.forest node).region else i) := by
        rw [climbToParent, if_pos rfl, extremals.link node inside]
        dsimp only [Option.bind_eq_bind, Option.bind_some]
        rw [if_neg (fun same => passed same.symm)]
      rw [parents.path_step node passed, List.length_cons]
      rcases Int.lt_or_eq_of_le (extremals.rises node inside) with rises | level
      · refine ⟨node, Forest.Below.here node, inside, rfl, Or.inr rises, Relation.EqvGen.refl _, ?_⟩
        intro i different fuel enough
        obtain ⟨left, rfl⟩ : ∃ left, fuel = left + 2 := ⟨fuel - 2, by omega⟩
        rw [enters, if_pos rises, climbToParent, if_neg different]
      · obtain ⟨top, below, topInside, topLevel, isRoot, connected, climbs⟩ := ih linkInside
        have link := extremals.connected node inside
        rw [← level] at topLevel connected link
        refine ⟨top, Forest.Below.up _ _ below, topInside, topLevel, isRoot,
          Relation.EqvGen.trans _ _ _ link connected, ?_⟩
        intro i different fuel enough
        obtain ⟨left, rfl⟩ : ∃ left, fuel = left + 1 := ⟨fuel - 1, by omega⟩
        rw [enters, if_neg (by omega)]
        exact climbs i different left (by omega)

private theorem Extremals.region_number (extremals : Extremals image tree parents) (node : Nat)
    (inside : node < nel image) (isRoot : IsRoot image parents node) :
    ∃ region, tree.regions[(tree.forest node).region]? = some region ∧ region.index = node := by
  obtain ⟨region, member, isNode⟩ := (extremals.steps node inside).mpr isRoot
  obtain ⟨number, numbered⟩ := List.mem_iff_getElem?.mp member
  have stored := (extremals.numbered number region numbered).1
  rw [isNode] at stored
  exact ⟨region, by rw [stored, numbered], isNode⟩

private theorem Extremals.path_length (extremals : Extremals image tree parents) (node : Nat)
    (inside : node < nel image) : (parents.path node).length < nel image := by
  have short := parents.path_length_lt (List.range (nel image))
    (fun node here => List.mem_range.mpr (extremals.stays node (List.mem_range.mp here))) node
    (List.mem_range.mpr inside)
  rwa [List.length_range] at short

structure ParentOf (image : I2D) (regions : List Region) (parents : Forest Nat) (i j : Nat)
    (region : Region) : Prop where
  top : parents.link region.index = region.index → j = i
  around : parents.link region.index ≠ region.index → j ≠ i ∧
    ∃ parent, regions[j]? = some parent ∧
      parents.Below region.index parent.index ∧
      parent.value = image.data (parents.link region.index) ∧
      InRegion image parent.value parent.index region.index

private theorem Extremals.climb_parent (extremals : Extremals image tree parents) (i : Nat)
    (region : Region) (found : tree.regions[i]? = some region) :
    ∃ j, climbToParent image tree i (nel image + 2) region.index region.value i = some j ∧
      ParentOf image tree.regions parents i j region := by
  have member := List.mem_of_getElem? found
  obtain ⟨value, inside⟩ := extremals.value region member
  have number := (extremals.numbered i region found).1
  rw [climbToParent, if_pos rfl, extremals.link _ inside, value]
  dsimp only [Option.bind_eq_bind, Option.bind_some]
  by_cases rooted : parents.link region.index = region.index
  · rw [rooted, if_pos rfl, number]
    refine ⟨i, rfl, fun _rooted => rfl, ?_⟩
    intro passed
    exact absurd rooted passed
  · rw [if_neg (fun same => rooted same.symm)]
    have linkInside := extremals.stays _ inside
    have rises : image.data region.index < image.data (parents.link region.index) :=
      Or.resolve_left ((extremals.steps _ inside).mp ⟨region, member, rfl⟩) rooted
    rw [if_pos rises, number]
    obtain ⟨top, below, topInside, topLevel, isRoot, connected, climbs⟩ :=
      extremals.firstRoot _ linkInside
    obtain ⟨parent, numbered, isTop⟩ := extremals.region_number top topInside isRoot
    have different : (tree.forest top).region ≠ i := by
      intro same
      rw [same, found] at numbered
      rw [← isTop, ← Option.some.inj numbered] at topLevel
      omega
    have short := extremals.path_length _ linkInside
    refine ⟨(tree.forest top).region, climbs i different _ (by omega), ?_, ?_⟩
    · intro isRooted
      exact absurd isRooted rooted
    · intro _passed
      have parentValue := (extremals.value parent (List.mem_of_getElem? numbered)).1
      rw [isTop, topLevel] at parentValue
      refine ⟨different, parent, numbered, ?_, parentValue, ?_⟩
      · rw [isTop]
        exact Forest.Below.up _ _ below
      · rw [parentValue, isTop]
        exact Relation.EqvGen.symm _ _
          (Relation.EqvGen.trans _ _ _ (extremals.connected _ inside) connected)

private theorem parentsFrom_parents (extremals : Extremals image tree parents) (i : Nat)
    (regions : List Region) (suffix : ∀ k, tree.regions[i + k]? = regions[k]?) :
    ∃ after, parentsFrom image tree i regions = some after ∧
      after.length = regions.length ∧ ∀ k region, regions[k]? = some region →
        ∃ j, after[k]? = some { region with parent := j } ∧
          ParentOf image tree.regions parents (i + k) j region := by
  induction regions generalizing i with
  | nil =>
      refine ⟨[], rfl, rfl, ?_⟩
      intro k region absent
      cases absent
  | cons region regions ih =>
      obtain ⟨j, climbed, isParent⟩ := extremals.climb_parent i region (suffix 0)
      obtain ⟨later, ran, length, others⟩ := ih (i + 1) (by
        intro k
        have same := suffix (k + 1)
        rw [List.getElem?_cons_succ] at same
        rw [← same]
        congr 1
        omega)
      refine ⟨{ region with parent := j } :: later, ?_, ?_, ?_⟩
      · rw [parentsFrom, climbed]
        dsimp only [Option.bind_eq_bind, Option.bind_some]
        rw [ran]
        rfl
      · rw [List.length_cons, List.length_cons, length]
      · intro k other found
        cases k with
        | zero =>
            rw [← Option.some.inj found]
            exact ⟨j, rfl, isParent⟩
        | succ k =>
            obtain ⟨otherJ, stored, otherParent⟩ := others k other found
            have place : i + 1 + k = i + (k + 1) := by omega
            rw [place] at otherParent
            exact ⟨otherJ, stored, otherParent⟩

theorem Extremals.regionParents (extremals : Extremals image tree parents) :
    ∃ after, Mser.regionParents image tree = some after ∧ after.length = tree.regions.length ∧
      ∀ i region, tree.regions[i]? = some region →
        ∃ j, after[i]? = some { region with parent := j } ∧
          ParentOf image tree.regions parents i j region := by
  obtain ⟨after, ran, length, each⟩ :=
    parentsFrom_parents extremals 0 tree.regions (fun k => by rw [Nat.zero_add])
  refine ⟨after, ran, length, ?_⟩
  intro i region found
  have parent := each i region found
  rwa [Nat.zero_add] at parent

end

end BlackboxProfiling.SdVbs.Mser
