import BlackboxProfiling.CountingSort
import BlackboxProfiling.SdVbs.Images

/-!
`mser.c` up to the tree of extremal regions: the bucket sort of the pixels and the
union-find loop over the sorted pixels.
-/

namespace BlackboxProfiling.SdVbs.Mser

structure Pair where
  value : Int
  index : Nat

structure Node where
  parent : Option Nat
  shortcut : Nat
  region : Nat
  area : Nat

/-- The fields of `region_t` that the tree loop sets. -/
structure Region where
  parent : Nat
  index : Nat
  value : Int
  area : Nat
  areaTop : Nat
  areaBot : Nat

def nel (image : I2D) : Nat := image.height * image.width

/-- The pairs the bucket sort leaves; an entry it does not reach is unset. -/
def pairs (image : I2D) : Nat → Option Pair :=
  CountingSort.bucketSort 256 (fun i => (image.data i).toNat) (fun i => ⟨image.data i, i⟩) (nel image)

/-- What the tree loop works on: `regions_pt` and `joins_pt` up to `ner` and `njoins`. -/
structure Tree where
  forest : Nat → Node
  regions : List Region
  joins : List Nat
  rindex : Nat

/-- The forest with all void nodes; the other fields are what `malloc` left. -/
def voidForest (unset : Nat → Node) (index : Nat) : Node := { unset index with parent := none }

/-- The first loop of a search, up the shortcuts. The visited nodes, the last one first,
are stored in an array that has `room` entries left. -/
def climb (forest : Nat → Node) (room node : Nat) (visited : List Nat) : Option (Nat × List Nat) :=
  if (forest node).shortcut = node then some (node, visited)
  else
    match room with
    | 0 => none
    | left + 1 => climb forest left (forest node).shortcut (node :: visited)

theorem climb_rooted (forest : Nat → Node) (room node : Nat) (visited : List Nat)
    (rooted : (forest node).shortcut = node) :
    climb forest room node visited = some (node, visited) := by
  rw [climb.eq_def, if_pos rooted]

theorem climb_passed (forest : Nat → Node) (room node : Nat) (visited : List Nat)
    (passed : (forest node).shortcut ≠ node) :
    climb forest (room + 1) node visited =
      climb forest room (forest node).shortcut (node :: visited) := by
  rw [climb.eq_def, if_neg passed]

def compress (root : Nat) : List Nat → Tree → Tree
  | [], tree => tree
  | node :: visited, tree =>
      compress root visited { tree with
        forest := Function.update tree.forest node { tree.forest node with shortcut := root } }

def findRoot (image : I2D) (node : Nat) (tree : Tree) : Option (Nat × Tree) := do
  let (root, visited) ← climb tree.forest (nel image) node []
  return (root, compress root visited tree)

/-- A store behind the last entry of an array of `nel` entries is no result. -/
def push {β : Type} (image : I2D) (entries : List β) (entry : β) : Option (List β) :=
  if entries.length < nel image then some (entries ++ [entry]) else none

def attach (child parent : Nat) (tree : Tree) : Tree :=
  let below := Function.update tree.forest child
    { tree.forest child with parent := some parent, shortcut := parent }
  { tree with
    forest := Function.update below parent
      { below parent with area := (below parent).area + (below child).area } }

theorem attach_child (child parent : Nat) (tree : Tree) (different : child ≠ parent) :
    (attach child parent tree).forest child =
      { tree.forest child with parent := some parent, shortcut := parent } := by
  rw [attach]
  dsimp only
  rw [Function.update_of_ne different, Function.update_self]

theorem attach_parent (child parent : Nat) (tree : Tree) (different : child ≠ parent) :
    (attach child parent tree).forest parent =
      { tree.forest parent with
        area := (tree.forest parent).area + (tree.forest child).area } := by
  rw [attach]
  dsimp only
  rw [Function.update_self, Function.update_self, Function.update_of_ne different.symm]

theorem attach_other (child parent other : Nat) (tree : Tree) (notChild : other ≠ child)
    (notParent : other ≠ parent) : (attach child parent tree).forest other = tree.forest other := by
  rw [attach]
  dsimp only
  rw [Function.update_of_ne notParent, Function.update_of_ne notChild]

def regionAt (image : I2D) (forest : Nat → Node) (number index : Nat) : Region where
  parent := number
  index := index
  value := image.data index
  area := (forest index).area
  areaTop := nel image
  areaBot := 0

def recordRegion (image : I2D) (tree : Tree) (index : Nat) : Option Tree := do
  let regions ← push image tree.regions (regionAt image tree.forest tree.regions.length index)
  return { tree with
    forest := Function.update tree.forest index
      { tree.forest index with region := tree.regions.length }
    regions := regions }

def joinTrees (image : I2D) (value : Int) (nrindex : Nat) (tree : Tree) : Option Tree :=
  if tree.rindex ≠ nrindex then
    let nrvalue := image.data nrindex
    if nrvalue = value then do
      let attached := attach tree.rindex nrindex tree
      let joins ← push image attached.joins tree.rindex
      return { attached with joins := joins }
    else do
      let attached := attach nrindex tree.rindex tree
      let recorded ← if nrvalue ≠ value then recordRegion image attached nrindex else some attached
      let joins ← push image recorded.joins nrindex
      return { recorded with joins := joins }
  else some tree

def nextOffset (offset : Int × Int) : Option (Int × Int) :=
  if offset.1 + 1 > 1 then
    if offset.2 + 1 > 1 then none else some (-1, offset.2 + 1)
  else some (offset.1 + 1, offset.2)

def offsetsFrom : Nat → Int × Int → List (Int × Int)
  | 0, _offset => []
  | count + 1, offset =>
      offset :: match nextOffset offset with
        | none => []
        | some next => offsetsFrom count next

def neighborOffsets : List (Int × Int) := offsetsFrom 9 (-1, -1)

def neighborIndex (image : I2D) (index : Nat) (offset : Int × Int) : Option Nat :=
  let row := offset.1 + (index % image.height : Nat)
  let column := offset.2 + (index / image.height : Nat)
  if 0 ≤ row ∧ row < image.height ∧ 0 ≤ column ∧ column < image.width then
    some (row.toNat + column.toNat * image.height)
  else none

def processNeighbor (image : I2D) (index : Nat) (value : Int) (offset : Int × Int) (tree : Tree) :
    Option Tree :=
  match neighborIndex image index offset with
  | none => some tree
  | some nindex =>
      if nindex ≠ index ∧ ((tree.forest nindex).parent).isSome then do
        let (rindex, shortened) ← findRoot image tree.rindex tree
        let (nrindex, found) ← findRoot image nindex { shortened with rindex := rindex }
        joinTrees image value nrindex found
      else some tree

def neighborLoop (image : I2D) (index : Nat) (value : Int) :
    List (Int × Int) → Tree → Option Tree
  | [], tree => some tree
  | offset :: offsets, tree => do
      let next ← processNeighbor image index value offset tree
      neighborLoop image index value offsets next

def pushPixel (tree : Tree) (index : Nat) : Tree :=
  { tree with
    forest := Function.update tree.forest index
      { tree.forest index with parent := some index, shortcut := index, area := 1 }
    rindex := index }

def processPixel (image : I2D) (pair : Pair) (tree : Tree) : Option Tree :=
  neighborLoop image pair.index pair.value neighborOffsets (pushPixel tree pair.index)

def treeAfter (image : I2D) (unset : Nat → Node) : Nat → Option Tree
  | 0 => some ⟨voidForest unset, [], [], 0⟩
  | i + 1 => do
      let tree ← treeAfter image unset i
      let pair ← pairs image i
      processPixel image pair tree

/-- The loop and, behind it, the region of `rindex`. -/
def extremalTree (image : I2D) (unset : Nat → Node) : Option Tree := do
  let tree ← treeAfter image unset (nel image)
  recordRegion image tree tree.rindex

end BlackboxProfiling.SdVbs.Mser
