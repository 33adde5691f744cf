import BlackboxProfiling.SdVbs.SegmentGraph
import Mathlib.Algebra.Order.BigOperators.Group.List
import Mathlib.Algebra.Order.Ring.Nat

/-!
`segment-image.c`: the grid graph of an image, its segmentation, the pass that joins
small components to others, and the labels of the components.
-/

namespace BlackboxProfiling.SdVbs.Segment

open DisjointSets

section

variable {V : Type}

/-- The edges one pixel adds; `diff` is the dissimilarity in the blurred image. -/
def pixelEdges (diff : Nat → Nat → Nat → Nat → V) (width height x y : Nat) : List (Edge V) :=
  (if x + 1 < width then [⟨diff x y (x + 1) y, y * width + x, y * width + (x + 1)⟩] else []) ++
  (if y + 1 < height then [⟨diff x y x (y + 1), y * width + x, (y + 1) * width + x⟩] else []) ++
  (if x + 1 < width ∧ y + 1 < height then
    [⟨diff x y (x + 1) (y + 1), y * width + x, (y + 1) * width + (x + 1)⟩] else []) ++
  (if x + 1 < width ∧ 0 < y then
    [⟨diff x y (x + 1) (y - 1), y * width + x, (y - 1) * width + (x + 1)⟩] else [])

def imageEdges (diff : Nat → Nat → Nat → Nat → V) (width height : Nat) : List (Edge V) :=
  (List.range height).flatMap (fun y =>
    (List.range width).flatMap (fun x => pixelEdges diff width height x y))

/-- The turn that joins the ends of an edge where one of their components is small. -/
def smallTurn (steps : Nat) (minSize : Int) (edge : Edge V) (u : Universe) : Option Universe := do
  let (a, u) ← find steps u edge.a
  let (b, u) ← find steps u edge.b
  if a ≠ b ∧ ((u.elts a).size < minSize ∨ (u.elts b).size < minSize) then return join u a b
  else return u

def smallLoop (steps : Nat) (minSize : Int) : List (Edge V) → Universe → Option Universe
  | [], u => some u
  | edge :: edges, u => do
      let joined ← smallTurn steps minSize edge u
      smallLoop steps minSize edges joined

/-- What the labelling works on; a segment of -1 is none. -/
structure Labels where
  u : Universe
  segments : Nat → Option Nat
  components : Nat
  output : Nat → Nat

def labelPixel (steps pixel : Nat) (labels : Labels) : Option Labels := do
  let (comp, u) ← find steps labels.u pixel
  let label := (labels.segments comp).getD labels.components
  return {
    u := u
    segments := Function.update labels.segments comp (some label)
    components := if (labels.segments comp).isNone then labels.components + 1 else labels.components
    output := Function.update labels.output pixel label }

def labelLoop (steps : Nat) : List Nat → Labels → Option Labels
  | [], labels => some labels
  | pixel :: pixels, labels => do
      let next ← labelPixel steps pixel labels
      labelLoop steps pixels next

def raster (width height : Nat) : List Nat :=
  (List.range height).flatMap (fun y => (List.range width).map (fun x => y * width + x))

structure Segmentation where
  numCcs : Int
  components : Nat
  output : Nat → Nat

/-- `segment_image` behind the blur, with what `malloc` left in the output. More edges than
the array has room for are no result. -/
def segmentImage (floats : Floats V) (steps : Nat) (diff : Nat → Nat → Nat → Nat → V)
    (width height : Nat) (minSize : Int) (unset : Nat → Nat) : Option Segmentation :=
  let edges := imageEdges diff width height
  if edges.length ≤ width * height * 4 then do
    let u ← segmentGraph floats steps (width * height) edges
    let u ← smallLoop steps minSize edges u
    let labels ← labelLoop steps (raster width height) ⟨u, fun _root => none, 0, unset⟩
    return ⟨u.num, labels.components, labels.output⟩
  else none

/-- Pixels that are next to each other in a row, a column or a diagonal. -/
def Beside (width height left right : Nat) : Prop :=
  left < width * height ∧ right < width * height ∧ left ≠ right ∧
    left % width ≤ right % width + 1 ∧ right % width ≤ left % width + 1 ∧
    left / width ≤ right / width + 1 ∧ right / width ≤ left / width + 1

theorem pixel_lt (width height x y : Nat) (inRow : x < width) (inColumn : y < height) :
    y * width + x < width * height := by
  calc y * width + x < y * width + width := Nat.add_lt_add_left inRow _
    _ = width * (y + 1) := by rw [Nat.mul_succ, Nat.mul_comm]
    _ ≤ width * height := Nat.mul_le_mul_left width inColumn

private theorem pixel_coordinates (width x y : Nat) (inRow : x < width) :
    (y * width + x) % width = x ∧ (y * width + x) / width = y := by
  rw [Nat.mul_comm, Nat.mul_add_mod, Nat.mul_add_div (Nat.zero_lt_of_lt inRow),
    Nat.mod_eq_of_lt inRow, Nat.div_eq_of_lt inRow, Nat.add_zero]
  exact ⟨rfl, rfl⟩

private theorem beside_of_coordinates (width height x y x' y' : Nat) (inRow : x < width)
    (inColumn : y < height) (inRow' : x' < width) (inColumn' : y' < height)
    (different : x ≠ x' ∨ y ≠ y') (near : x ≤ x' + 1 ∧ x' ≤ x + 1 ∧ y ≤ y' + 1 ∧ y' ≤ y + 1) :
    Beside width height (y * width + x) (y' * width + x') := by
  obtain ⟨column, row⟩ := pixel_coordinates width x y inRow
  obtain ⟨column', row'⟩ := pixel_coordinates width x' y' inRow'
  refine ⟨pixel_lt width height x y inRow inColumn, pixel_lt width height x' y' inRow' inColumn',
    ?_, ?_⟩
  · intro same
    rw [same, column'] at column
    rw [same, row'] at row
    rcases different with otherColumn | otherRow
    · exact otherColumn column.symm
    · exact otherRow row.symm
  · rw [column, row, column', row']
    exact near

private theorem mem_pixelEdges (diff : Nat → Nat → Nat → Nat → V) (width height x y : Nat)
    (inRow : x < width) (inColumn : y < height) (edge : Edge V)
    (member : edge ∈ pixelEdges diff width height x y) : Beside width height edge.a edge.b := by
  rw [pixelEdges] at member
  rcases List.mem_append.mp member with first | upRight
  · rcases List.mem_append.mp first with first | downRight
    · rcases List.mem_append.mp first with right | down
      · rw [List.mem_ite_nil_right, List.mem_singleton] at right
        obtain ⟨inside, rfl⟩ := right
        exact beside_of_coordinates width height x y (x + 1) y inRow inColumn inside inColumn
          (Or.inl (by omega)) (by omega)
      · rw [List.mem_ite_nil_right, List.mem_singleton] at down
        obtain ⟨inside, rfl⟩ := down
        exact beside_of_coordinates width height x y x (y + 1) inRow inColumn inRow inside
          (Or.inr (by omega)) (by omega)
    · rw [List.mem_ite_nil_right, List.mem_singleton] at downRight
      obtain ⟨inside, rfl⟩ := downRight
      exact beside_of_coordinates width height x y (x + 1) (y + 1) inRow inColumn inside.1 inside.2
        (Or.inl (by omega)) (by omega)
  · rw [List.mem_ite_nil_right, List.mem_singleton] at upRight
    obtain ⟨inside, rfl⟩ := upRight
    exact beside_of_coordinates width height x y (x + 1) (y - 1) inRow inColumn inside.1 (by omega)
      (Or.inl (by omega)) (by omega)

private theorem mem_imageEdges (diff : Nat → Nat → Nat → Nat → V) (width height : Nat) (edge : Edge V) :
    edge ∈ imageEdges diff width height ↔
      ∃ y < height, ∃ x < width, edge ∈ pixelEdges diff width height x y := by
  simp only [imageEdges, List.mem_flatMap, List.mem_range]

private theorem imageEdges_beside (diff : Nat → Nat → Nat → Nat → V) (width height : Nat)
    (edge : Edge V)
    (member : edge ∈ imageEdges diff width height) : Beside width height edge.a edge.b := by
  obtain ⟨y, inColumn, x, inRow, here⟩ := (mem_imageEdges diff width height edge).mp member
  exact mem_pixelEdges diff width height x y inRow inColumn edge here

private theorem length_flatMap_le {α β : Type} (items : List α) (step : α → List β) (most : Nat)
    (few : ∀ item ∈ items, (step item).length ≤ most) :
    (items.flatMap step).length ≤ items.length * most := by
  have bound := List.sum_le_card_nsmul (items.map (fun item => (step item).length)) most (by
    intro size member
    obtain ⟨item, inItems, rfl⟩ := List.mem_map.mp member
    exact few item inItems)
  rw [List.length_flatMap]
  rwa [List.length_map, nsmul_eq_mul, Nat.cast_id] at bound

theorem imageEdges_length (diff : Nat → Nat → Nat → Nat → V) (width height : Nat) :
    (imageEdges diff width height).length ≤ width * height * 4 := by
  have pixel (x y : Nat) : (pixelEdges diff width height x y).length ≤ 4 := by
    have one (condition : Prop) [Decidable condition] (edge : Edge V) :
        (if condition then [edge] else []).length ≤ 1 := by
      split
      · exact Nat.le_refl 1
      · exact Nat.zero_le 1
    rw [pixelEdges, List.length_append, List.length_append, List.length_append]
    exact Nat.add_le_add (Nat.add_le_add (Nat.add_le_add (one _ _) (one _ _)) (one _ _)) (one _ _)
  have row (y : Nat) : ((List.range width).flatMap
      (fun x => pixelEdges diff width height x y)).length ≤ width * 4 := by
    have bound := length_flatMap_le (List.range width) (fun x => pixelEdges diff width height x y) 4
      (fun x _listed => pixel x y)
    rwa [List.length_range] at bound
  have bound := length_flatMap_le (List.range height) _ (width * 4) (fun y _listed => row y)
  rw [List.length_range] at bound
  rw [imageEdges]
  refine Nat.le_trans bound (Nat.le_of_eq ?_)
  rw [← Nat.mul_assoc, Nat.mul_comm height width]

private theorem raster_range (width height : Nat) : raster width height = List.range
    (height * width) := by
  rw [raster]
  induction height with
  | zero => rw [Nat.zero_mul, List.range_zero, List.flatMap_nil]
  | succ height ih =>
      rw [List.range_succ, List.flatMap_append, ih, List.flatMap_cons, List.flatMap_nil,
        List.append_nil, Nat.succ_mul, List.range_add]

theorem imageEdges_connected (diff : Nat → Nat → Nat → Nat → V) (width height left right : Nat)
    (inside : left < width * height) (otherInside : right < width * height) :
    Relation.EqvGen (fun a b => ∃ edge ∈ imageEdges diff width height, edge.a = a ∧ edge.b = b)
      left right := by
  have step (x y : Nat) (inRow : x < width) (inColumn : y < height) (edge : Edge V)
      (member : edge ∈ pixelEdges diff width height x y) :
      Relation.EqvGen (fun a b => ∃ edge ∈ imageEdges diff width height, edge.a = a ∧ edge.b = b)
        edge.a edge.b :=
    Relation.EqvGen.rel _ _ ⟨edge, (mem_imageEdges diff width height edge).mpr
      ⟨y, inColumn, x, inRow, member⟩, rfl, rfl⟩
  have column (y : Nat) (inColumn : y < height) (positive : 0 < width) :
      Relation.EqvGen (fun a b => ∃ edge ∈ imageEdges diff width height, edge.a = a ∧ edge.b = b)
        0 (y * width) := by
    induction y with
    | zero =>
        rw [Nat.zero_mul]
        exact Relation.EqvGen.refl 0
    | succ y ih =>
        have down := step 0 y positive (Nat.lt_of_succ_lt inColumn)
          ⟨diff 0 y 0 (y + 1), y * width + 0, (y + 1) * width + 0⟩ (by
            rw [pixelEdges, if_pos inColumn]
            simp)
        exact Relation.EqvGen.trans _ _ _ (ih (Nat.lt_of_succ_lt inColumn)) down
  have row (x y : Nat) (inRow : x < width) (inColumn : y < height) :
      Relation.EqvGen (fun a b => ∃ edge ∈ imageEdges diff width height, edge.a = a ∧ edge.b = b)
        0 (y * width + x) := by
    induction x with
    | zero => exact column y inColumn inRow
    | succ x ih =>
        have across := step x y (Nat.lt_of_succ_lt inRow) inColumn
          ⟨diff x y (x + 1) y, y * width + x, y * width + (x + 1)⟩ (by
            rw [pixelEdges, if_pos inRow]
            simp)
        exact Relation.EqvGen.trans _ _ _ (ih (Nat.lt_of_succ_lt inRow)) across
  have any (pixel : Nat) (pixelInside : pixel < width * height) :
      Relation.EqvGen (fun a b => ∃ edge ∈ imageEdges diff width height, edge.a = a ∧ edge.b = b)
        0 pixel := by
    have positive : 0 < width := by
      by_contra none
      rw [Nat.eq_zero_of_not_pos none, Nat.zero_mul] at pixelInside
      exact absurd pixelInside (Nat.not_lt_zero pixel)
    have here := row (pixel % width) (pixel / width) (Nat.mod_lt pixel positive)
      (Nat.div_lt_of_lt_mul pixelInside)
    rwa [Nat.mul_comm, Nat.div_add_mod] at here
  exact Relation.EqvGen.trans _ _ _ (Relation.EqvGen.symm _ _ (any left inside))
    (any right otherInside)

/-! ### Small components -/

def AtLeast (vertices : Nat) (least : Int) (pairs : Nat → Nat → Prop) (node : Nat) : Prop :=
  ∃ nodes : List Nat, nodes.Nodup ∧ least ≤ nodes.length ∧
    ∀ other ∈ nodes, other < vertices ∧ Relation.EqvGen pairs node other

theorem AtLeast.mono {vertices : Nat} {least : Int} {pairs more : Nat → Nat → Prop} {node : Nat}
    (atLeast : AtLeast vertices least pairs node)
    (kept : ∀ left right, pairs left right → more left right) :
    AtLeast vertices least more node := by
  obtain ⟨nodes, distinct, enough, connected⟩ := atLeast
  refine ⟨nodes, distinct, enough, ?_⟩
  intro other member
  obtain ⟨inside, linked⟩ := connected other member
  exact ⟨inside, linked.mono kept⟩

theorem AtLeast.moved {vertices : Nat} {least : Int} {pairs : Nat → Nat → Prop} {node other : Nat}
    (atLeast : AtLeast vertices least pairs node) (linked : Relation.EqvGen pairs node other) :
    AtLeast vertices least pairs other := by
  obtain ⟨nodes, distinct, enough, connected⟩ := atLeast
  refine ⟨nodes, distinct, enough, ?_⟩
  intro third member
  obtain ⟨inside, toNode⟩ := connected third member
  exact ⟨inside, Relation.EqvGen.trans _ _ _ (Relation.EqvGen.symm _ _ linked) toNode⟩

section

variable {u : Universe} {forest : Forest Nat} {pairs : Nat → Nat → Prop}

private theorem Partition.members_atLeast (partition : Partition u forest pairs) (least : Int)
    (node : Nat) :
    AtLeast u.vertices least pairs node ↔
      least ≤ (forest.members (List.range u.vertices) (forest.root node)).length := by
  have isMember (other : Nat) : other ∈ forest.members (List.range u.vertices) (forest.root node) ↔
      other < u.vertices ∧ Relation.EqvGen pairs node other := by
    rw [forest.mem_members, List.mem_range, ← partition.represents, eq_comm]
  constructor
  · intro atLeast
    obtain ⟨nodes, distinct, enough, connected⟩ := atLeast
    have few := (List.subperm_of_subset distinct
      (fun other member => (isMember other).mpr (connected other member))).length_le
    omega
  · intro enough
    exact ⟨_, List.nodup_range.filter _, enough, fun other member => (isMember other).mp member⟩

private theorem Partition.size_atLeast (partition : Partition u forest pairs) (least : Int) (node : Nat)
    (inside : node < u.vertices) :
    AtLeast u.vertices least pairs node ↔ least ≤ (u.elts (forest.root node)).size := by
  rw [partition.size_root node inside]
  exact partition.members_atLeast least node

end

/-- The ends of an edge are in one component or in two that are not small. -/
def Settled (vertices : Nat) (minSize : Int) (pairs : Nat → Nat → Prop) (edge : Edge V) : Prop :=
  Relation.EqvGen pairs edge.a edge.b ∨
    (AtLeast vertices minSize pairs edge.a ∧ AtLeast vertices minSize pairs edge.b)

private theorem smallTurn_settles {steps vertices : Nat} (enough : Nat.log 2 vertices < steps)
    (minSize : Int) (edges : List (Edge V))
    (inside : ∀ edge ∈ edges, edge.a < vertices ∧ edge.b < vertices) (edge : Edge V)
    (member : edge ∈ edges) (u : Universe) (forest : Forest Nat) (pairs : Nat → Nat → Prop)
    (size : u.vertices = vertices) (partition : Partition u forest pairs)
    (along : Along edges pairs) :
    ∃ after joined more, smallTurn steps minSize edge u = some after ∧ after.vertices = vertices ∧
      Partition after joined more ∧ Along edges more ∧
      (∀ left right, pairs left right → more left right) ∧ Settled vertices minSize more edge := by
  obtain ⟨aInside, bInside⟩ := inside edge member
  rw [← size] at enough aInside bInside
  obtain ⟨middle, found, shortened, foundA, foundB, sameSize, shorter, sameRoots⟩ :=
    find_both partition steps enough edge.a edge.b aInside bInside
  have sizeA := shorter.size_atLeast minSize edge.a (sameSize ▸ aInside)
  have sizeB := shorter.size_atLeast minSize edge.b (sameSize ▸ bInside)
  rw [sameRoots, sameSize, size] at sizeA sizeB
  rw [smallTurn, foundA]
  dsimp only [Option.bind_eq_bind, Option.bind_some]
  rw [foundB]
  dsimp only [Option.bind_some]
  split
  · rename_i joins
    obtain ⟨joined, joinedSize, joinedPartition⟩ := join_partition shorter edge.a edge.b
      (sameSize ▸ aInside) (sameSize ▸ bInside) (by rw [sameRoots, sameRoots]; exact joins.1)
    rw [sameRoots, sameRoots] at joinedSize joinedPartition
    exact ⟨_, joined, _, rfl, joinedSize.trans (sameSize.trans size), joinedPartition,
      along.addPair edge member, fun _left _right pair => Or.inl pair,
      Or.inl (Relation.EqvGen.rel _ _ (Or.inr ⟨rfl, rfl⟩))⟩
  · rename_i stays
    refine ⟨found, shortened, pairs, rfl, sameSize.trans size, shorter, along,
      fun _left _right pair => pair, ?_⟩
    by_cases same : forest.root edge.a = forest.root edge.b
    · exact Or.inl ((partition.represents _ _).mp same)
    · refine Or.inr ⟨sizeA.mpr ?_, sizeB.mpr ?_⟩
      · by_contra small
        exact stays ⟨same, Or.inl (Int.not_le.mp small)⟩
      · by_contra small
        exact stays ⟨same, Or.inr (Int.not_le.mp small)⟩

theorem Settled.mono {vertices : Nat} {minSize : Int} {pairs more : Nat → Nat → Prop}
    {edge : Edge V} (settled : Settled vertices minSize pairs edge)
    (kept : ∀ left right, pairs left right → more left right) :
    Settled vertices minSize more edge := by
  rcases settled with linked | ⟨atA, atB⟩
  · exact Or.inl (linked.mono kept)
  · exact Or.inr ⟨atA.mono kept, atB.mono kept⟩

private theorem smallLoop_settles {steps vertices : Nat} (enough : Nat.log 2 vertices < steps)
    (minSize : Int) (edges : List (Edge V))
    (inside : ∀ edge ∈ edges, edge.a < vertices ∧ edge.b < vertices) (todo : List (Edge V))
    (within : ∀ edge ∈ todo, edge ∈ edges) (u : Universe) (forest : Forest Nat)
    (pairs : Nat → Nat → Prop) (size : u.vertices = vertices) (partition : Partition u forest pairs)
    (along : Along edges pairs) :
    ∃ after joined more, smallLoop steps minSize todo u = some after ∧ after.vertices = vertices ∧
      Partition after joined more ∧ Along edges more ∧
      (∀ left right, pairs left right → more left right) ∧
      ∀ edge ∈ todo, Settled vertices minSize more edge := by
  induction todo generalizing u forest pairs with
  | nil => exact ⟨u, forest, pairs, rfl, size, partition, along, fun _left _right pair => pair,
      fun edge none => absurd none List.not_mem_nil⟩
  | cons edge todo ih =>
      obtain ⟨middle, joined, more, turned, middleSize, middlePartition, middleAlong, kept, settled⟩ :=
        smallTurn_settles enough minSize edges inside edge (within edge List.mem_cons_self) u forest
          pairs size partition along
      obtain ⟨after, last, most, ran, afterSize, afterPartition, afterAlong, later, rest⟩ :=
        ih (fun other member => within other (List.mem_cons_of_mem edge member)) middle joined more
          middleSize middlePartition middleAlong
      refine ⟨after, last, most, ?_, afterSize, afterPartition, afterAlong,
        fun left right pair => later left right (kept left right pair), ?_⟩
      · rw [smallLoop, turned]
        exact ran
      · intro other member
        rcases List.mem_cons.mp member with here | there
        · rw [here]
          exact settled.mono later
        · exact rest other there

theorem settled_cases (vertices : Nat) (minSize : Int) (edges : List (Edge V))
    (pairs : Nat → Nat → Prop)
    (connected : ∀ left < vertices, ∀ right < vertices,
      Relation.EqvGen (fun a b => ∃ edge ∈ edges, edge.a = a ∧ edge.b = b) left right)
    (settled : ∀ edge ∈ edges, Settled vertices minSize pairs edge) :
    (∀ left < vertices, ∀ right < vertices, Relation.EqvGen pairs left right) ∨
      ∀ node < vertices, AtLeast vertices minSize pairs node := by
  by_cases allLarge : ∀ node < vertices, AtLeast vertices minSize pairs node
  · exact Or.inr allLarge
  · refine Or.inl ?_
    push Not at allLarge
    obtain ⟨node, inside, small⟩ := allLarge
    -- no edge leaves a small component
    have closed (a b : Nat) (isEdge : ∃ edge ∈ edges, edge.a = a ∧ edge.b = b) :
        Relation.EqvGen pairs node a ↔ Relation.EqvGen pairs node b := by
      obtain ⟨edge, member, rfl, rfl⟩ := isEdge
      rcases settled edge member with linked | ⟨atA, atB⟩
      · constructor
        · intro toA
          exact Relation.EqvGen.trans _ _ _ toA linked
        · intro toB
          exact Relation.EqvGen.trans _ _ _ toB (Relation.EqvGen.symm _ _ linked)
      · refine iff_of_false ?_ ?_
        · intro toA
          exact small (atA.moved (Relation.EqvGen.symm _ _ toA))
        · intro toB
          exact small (atB.moved (Relation.EqvGen.symm _ _ toB))
    have reaches (other : Nat) (otherInside : other < vertices) : Relation.EqvGen pairs node other :=
      (generated_iff (fun other => Relation.EqvGen pairs node other) closed node other
        (connected node inside other otherInside)).mp (Relation.EqvGen.refl node)
    intro left leftInside right rightInside
    exact Relation.EqvGen.trans _ _ _ (Relation.EqvGen.symm _ _ (reaches left leftInside))
      (reaches right rightInside)

/-! ### Labels -/

structure Labelled (top : Nat → Nat) (pixels : Nat) (labels : Labels) (met : List Nat) : Prop where
  distinct : met.Nodup
  segments : ∀ root label, labels.segments root = some label ↔ met[label]? = some root
  components : labels.components = met.length
  roots : ∀ root ∈ met, ∃ pixel < pixels, top pixel = root
  output : ∀ pixel < pixels, met[labels.output pixel]? = some (top pixel)
  first : ∀ label < met.length, ∃ pixel < pixels, labels.output pixel = label ∧
    ∀ earlier < pixel, labels.output earlier < label

private theorem lookup_concat_iff (met : List Nat) (last label root : Nat) :
    (met ++ [last])[label]? = some root ↔
      met[label]? = some root ∨ (label = met.length ∧ root = last) := by
  rcases Nat.lt_trichotomy label met.length with early | here | late
  · rw [List.getElem?_append_left early]
    exact (or_iff_left (fun both => absurd both.1 (Nat.ne_of_lt early))).symm
  · rw [here, List.getElem?_concat_length, List.getElem?_eq_none (Nat.le_refl _),
      Option.some.injEq, eq_comm]
    simp
  · have behind : (met ++ [last]).length ≤ label := by
      rw [List.length_append, List.length_singleton]
      exact late
    rw [List.getElem?_eq_none (Nat.le_of_lt late), List.getElem?_eq_none behind]
    refine iff_of_false (fun none => by cases none) ?_
    rintro (none | both)
    · cases none
    · exact absurd both.1 (Nat.ne_of_gt late)

section

variable {top : Nat → Nat} {pixel : Nat} {labels : Labels} {met : List Nat}

private theorem Labelled.output_inside (labelled : Labelled top pixel labels met) (earlier : Nat)
    (before : earlier < pixel) : labels.output earlier < met.length :=
  (List.getElem?_eq_some_iff.mp (labelled.output earlier before)).1

theorem Labelled.first_kept (labelled : Labelled top pixel labels met) (label : Nat)
    (bound : label < met.length) (value : Nat) :
    ∃ place < pixel + 1, Function.update labels.output pixel value place = label ∧
      ∀ earlier < place, Function.update labels.output pixel value earlier < label := by
  obtain ⟨place, before, here, smaller⟩ := labelled.first label bound
  refine ⟨place, Nat.lt_succ_of_lt before, ?_, ?_⟩
  · rw [Function.update_of_ne (Nat.ne_of_lt before)]
    exact here
  · intro earlier atEarlier
    rw [Function.update_of_ne (Nat.ne_of_lt (Nat.lt_trans atEarlier before))]
    exact smaller earlier atEarlier

theorem Labelled.again (labelled : Labelled top pixel labels met) (u : Universe) (label : Nat)
    (known : labels.segments (top pixel) = some label) :
    Labelled top (pixel + 1)
      ⟨u, Function.update labels.segments (top pixel) (some label), labels.components,
        Function.update labels.output pixel label⟩ met := by
  constructor
  case distinct => exact labelled.distinct
  case segments =>
    intro root other
    dsimp only
    by_cases here : root = top pixel
    · rw [here, Function.update_self, ← labelled.segments, known]
    · rw [Function.update_of_ne here]
      exact labelled.segments root other
  case components => exact labelled.components
  case roots =>
    intro root member
    obtain ⟨earlier, before, isRoot⟩ := labelled.roots root member
    exact ⟨earlier, Nat.lt_succ_of_lt before, isRoot⟩
  case output =>
    intro earlier before
    dsimp only
    rcases Nat.lt_or_eq_of_le (Nat.le_of_lt_succ before) with earlierStill | last
    · rw [Function.update_of_ne (Nat.ne_of_lt earlierStill)]
      exact labelled.output earlier earlierStill
    · rw [last, Function.update_self]
      exact (labelled.segments (top pixel) label).mp known
  case first =>
    intro other bound
    exact labelled.first_kept other bound label

theorem Labelled.fresh (labelled : Labelled top pixel labels met) (u : Universe)
    (unknown : labels.segments (top pixel) = none) :
    Labelled top (pixel + 1)
      ⟨u, Function.update labels.segments (top pixel) (some labels.components),
        labels.components + 1, Function.update labels.output pixel labels.components⟩
      (met ++ [top pixel]) := by
  have new : top pixel ∉ met := by
    intro member
    obtain ⟨label, atLabel⟩ := List.mem_iff_getElem?.mp member
    rw [(labelled.segments (top pixel) label).mpr atLabel] at unknown
    cases unknown
  constructor
  case distinct =>
    rw [List.nodup_append]
    refine ⟨labelled.distinct, List.nodup_singleton _, ?_⟩
    intro root member last isLast equal
    rw [equal, List.mem_singleton.mp isLast] at member
    exact new member
  case segments =>
    intro root label
    dsimp only
    rw [lookup_concat_iff, labelled.components]
    by_cases here : root = top pixel
    · rw [here, Function.update_self, Option.some.injEq]
      constructor
      · intro isLabel
        exact Or.inr ⟨isLabel.symm, rfl⟩
      · rintro (atLabel | last)
        · exact absurd (List.mem_of_getElem? atLabel) new
        · exact last.1.symm
    · rw [Function.update_of_ne here, labelled.segments]
      exact (or_iff_left (fun both => here both.2)).symm
  case components =>
    dsimp only
    rw [labelled.components, List.length_append, List.length_singleton]
  case roots =>
    intro root member
    rcases List.mem_append.mp member with earlier | last
    · obtain ⟨place, before, isRoot⟩ := labelled.roots root earlier
      exact ⟨place, Nat.lt_succ_of_lt before, isRoot⟩
    · exact ⟨pixel, Nat.lt_succ_self pixel, (List.mem_singleton.mp last).symm⟩
  case output =>
    intro earlier before
    dsimp only
    rw [lookup_concat_iff]
    rcases Nat.lt_or_eq_of_le (Nat.le_of_lt_succ before) with earlierStill | last
    · rw [Function.update_of_ne (Nat.ne_of_lt earlierStill)]
      exact Or.inl (labelled.output earlier earlierStill)
    · rw [last, Function.update_self]
      exact Or.inr ⟨labelled.components, rfl⟩
  case first =>
    intro label bound
    rw [List.length_append, List.length_singleton] at bound
    rcases Nat.lt_or_eq_of_le (Nat.le_of_lt_succ bound) with early | last
    · exact labelled.first_kept label early labels.components
    · refine ⟨pixel, Nat.lt_succ_self pixel, ?_, ?_⟩
      · dsimp only
        rw [Function.update_self, labelled.components, last]
      · intro earlier before
        dsimp only
        rw [Function.update_of_ne (Nat.ne_of_lt before), last]
        exact labelled.output_inside earlier before

end

private theorem labelPixel_labelled {steps vertices : Nat} (enough : Nat.log 2 vertices < steps)
    (top : Nat → Nat) (pixel : Nat) (inside : pixel < vertices) (labels : Labels) (met : List Nat)
    (labelled : Labelled top pixel labels met) (forest : Forest Nat) (pairs : Nat → Nat → Prop)
    (size : labels.u.vertices = vertices) (partition : Partition labels.u forest pairs)
    (same : ∀ node, forest.root node = top node) :
    ∃ after shorter more, labelPixel steps pixel labels = some after ∧
      after.u.vertices = vertices ∧ Partition after.u shorter pairs ∧
      (∀ node, shorter.root node = top node) ∧ Labelled top (pixel + 1) after more := by
  rw [← size] at enough inside
  obtain ⟨u, found, afterSize, afterPartition⟩ := find_partition partition steps enough pixel inside
  have sameAfter (node : Nat) : (forest.shorten pixel).root node = top node := by
    rw [forest.shorten_root, same]
  rw [labelPixel, found, same pixel]
  dsimp only [Option.bind_eq_bind, Option.bind_some]
  cases known : labels.segments (top pixel) with
  | some label =>
      exact ⟨_, forest.shorten pixel, met, rfl, afterSize.trans size, afterPartition, sameAfter,
        labelled.again u label known⟩
  | none =>
      exact ⟨_, forest.shorten pixel, met ++ [top pixel], rfl, afterSize.trans size,
        afterPartition, sameAfter, labelled.fresh u known⟩

private theorem labelLoop_labelled {steps vertices : Nat} (enough : Nat.log 2 vertices < steps)
    (top : Nat → Nat) (more start : Nat) (within : start + more ≤ vertices) (labels : Labels)
    (met : List Nat) (labelled : Labelled top start labels met) (forest : Forest Nat)
    (pairs : Nat → Nat → Prop) (size : labels.u.vertices = vertices)
    (partition : Partition labels.u forest pairs) (same : ∀ node, forest.root node = top node) :
    ∃ after all, labelLoop steps (List.range' start more) labels = some after ∧
      Labelled top (start + more) after all := by
  induction more generalizing start labels met forest with
  | zero => exact ⟨labels, met, rfl, labelled⟩
  | succ more ih =>
      obtain ⟨middle, shorter, metNow, turned, middleSize, middlePartition, sameNow, labelledNow⟩ :=
        labelPixel_labelled enough top start (by omega) labels met labelled forest pairs size partition
          same
      obtain ⟨after, all, ran, done⟩ := ih (start + 1) (by omega) middle metNow labelledNow shorter
        middleSize middlePartition sameNow
      refine ⟨after, all, ?_, ?_⟩
      · rw [List.range'_succ, labelLoop, turned]
        exact ran
      · rw [Nat.add_assoc, Nat.add_comm 1 more] at done
        exact done

theorem Labelled.start (top : Nat → Nat) (u : Universe) (unset : Nat → Nat) :
    Labelled top 0 ⟨u, fun _root => none, 0, unset⟩ [] where
  distinct := List.nodup_nil
  segments root label := iff_of_false (fun none => by cases none) (fun none => by cases none)
  components := rfl
  roots root member := absurd member List.not_mem_nil
  output pixel none := absurd none (Nat.not_lt_zero pixel)
  first label none := absurd none (Nat.not_lt_zero label)

theorem Labelled.output_iff {top : Nat → Nat} {pixels : Nat} {labels : Labels} {met : List Nat}
    (labelled : Labelled top pixels labels met) (left right : Nat) (inside : left < pixels)
    (otherInside : right < pixels) :
    labels.output left = labels.output right ↔ top left = top right := by
  have atLeft := labelled.output left inside
  have atRight := labelled.output right otherInside
  constructor
  · intro same
    rw [same] at atLeft
    exact Option.some.inj (atLeft.symm.trans atRight)
  · intro same
    rw [same] at atLeft
    exact (List.getElem?_inj (List.getElem?_eq_some_iff.mp atLeft).1 labelled.distinct).mp
      (atLeft.trans atRight.symm)

private theorem Labelled.output_lt {top : Nat → Nat} {pixels : Nat} {labels : Labels} {met : List Nat}
    (labelled : Labelled top pixels labels met) (pixel : Nat) (inside : pixel < pixels) :
    labels.output pixel < labels.components := by
  rw [labelled.components]
  exact labelled.output_inside pixel inside

theorem Labelled.components_roots {forest : Forest Nat} {vertices : Nat} {labels : Labels}
    {met : List Nat} (labelled : Labelled forest.root vertices labels met)
    (inside : ∀ node < vertices, forest.root node < vertices) :
    labels.components = (forest.roots (List.range vertices)).length := by
  have distinctRoots : (forest.roots (List.range vertices)).Nodup := List.nodup_range.filter _
  have same : met.Perm (forest.roots (List.range vertices)) := by
    refine (List.perm_ext_iff_of_nodup labelled.distinct distinctRoots).mpr ?_
    intro root
    rw [forest.mem_roots, List.mem_range]
    constructor
    · intro member
      obtain ⟨pixel, pixelInside, isRoot⟩ := labelled.roots root member
      rw [← isRoot]
      exact ⟨inside pixel pixelInside, forest.link_root pixel⟩
    · intro both
      have atRoot := labelled.output root both.1
      rw [forest.root_self root both.2] at atRoot
      exact List.mem_of_getElem? atRoot
  rw [labelled.components, same.length_eq]

theorem Labelled.components_le_one {top : Nat → Nat} {pixels : Nat} {labels : Labels}
    {met : List Nat} (labelled : Labelled top pixels labels met)
    (whole : ∀ left < pixels, ∀ right < pixels, top left = top right) :
    labels.components ≤ 1 := by
  by_contra several
  have components := labelled.components
  -- the first and the last label are labels of one root
  obtain ⟨first, firstInside, isFirst, _before⟩ := labelled.first 0 (by omega)
  obtain ⟨last, lastInside, isLast, _earlier⟩ :=
    labelled.first (labels.components - 1) (by omega)
  have same := (labelled.output_iff first last firstInside lastInside).mpr
    (whole first firstInside last lastInside)
  omega

theorem Labelled.pixels {forest : Forest Nat} {vertices : Nat} {labels : Labels} {met : List Nat}
    (labelled : Labelled forest.root vertices labels met) (place : Nat) (inside : place < vertices) :
    (List.range vertices).filter
        (fun pixel => decide (labels.output pixel = labels.output place)) =
      forest.members (List.range vertices) (forest.root place) := by
  apply List.filter_congr
  intro pixel listed
  apply decide_eq_decide.mpr
  exact labelled.output_iff pixel place (List.mem_range.mp listed) inside

/-- Whatever the weights, each search ends within logarithmically many steps, the labels
run from zero in the order of the pixels, each label is connected on the grid, `num_ccs`
counts them, and no component is smaller than `min_size` unless it is all of the image. -/
theorem segmentImage_components (floats : Floats V) (steps : Nat)
    (diff : Nat → Nat → Nat → Nat → V) (width height : Nat) (minSize : Int) (unset : Nat → Nat)
    (enough : Nat.log 2 (width * height) < steps) :
    ∃ result, segmentImage floats steps diff width height minSize unset = some result ∧
      result.numCcs = result.components ∧
      (∀ pixel < width * height, result.output pixel < result.components) ∧
      (∀ label < result.components, ∃ pixel < width * height, result.output pixel = label ∧
        ∀ earlier < pixel, result.output earlier < label) ∧
      (∀ left < width * height, ∀ right < width * height,
        result.output left = result.output right →
          Relation.EqvGen (fun one other => Beside width height one other ∧
            result.output one = result.output other) left right) ∧
      (result.components = 1 ∨ ∀ label < result.components,
        minSize ≤ ((List.range (width * height)).filter
          (fun pixel => result.output pixel = label)).length) := by
  have beside := imageEdges_beside diff width height
  have inside (edge : Edge V) (member : edge ∈ imageEdges diff width height) :
      edge.a < width * height ∧ edge.b < width * height :=
    ⟨(beside edge member).1, (beside edge member).2.1⟩
  obtain ⟨u, forest, pairs, segmented, size, partition, along⟩ :=
    segmentGraph_partition floats enough (imageEdges diff width height) inside
  obtain ⟨joined, joinedForest, more, ran, joinedSize, joinedPartition, moreAlong, _kept, settled⟩ :=
    smallLoop_settles enough minSize (imageEdges diff width height) inside
      (imageEdges diff width height) (fun edge member => member) u forest pairs size partition along
  obtain ⟨labels, met, labelRun, labelled⟩ := labelLoop_labelled enough joinedForest.root
    (width * height) 0 (by omega) ⟨joined, fun _root => none, 0, unset⟩ []
    (Labelled.start joinedForest.root joined unset) joinedForest more joinedSize joinedPartition
    (fun node => rfl)
  rw [Nat.zero_add] at labelled
  have sameLabel (left right : Nat) (leftInside : left < width * height)
      (rightInside : right < width * height) :
      labels.output left = labels.output right ↔ Relation.EqvGen more left right :=
    (labelled.output_iff left right leftInside rightInside).trans
      (joinedPartition.represents left right)
  have rootInside (node : Nat) (nodeInside : node < width * height) :
      joinedForest.root node < width * height := by
    rw [← joinedSize] at nodeInside ⊢
    exact joinedPartition.root_lt node nodeInside
  refine ⟨⟨joined.num, labels.components, labels.output⟩, ?_, ?_, ?_, ?_, ?_, ?_⟩
  · rw [segmentImage, if_pos (imageEdges_length diff width height), segmented]
    dsimp only [Option.bind_eq_bind, Option.bind_some]
    rw [ran]
    dsimp only [Option.bind_some]
    rw [raster_range, Nat.mul_comm height width, List.range_eq_range', labelRun]
    rfl
  · rw [joinedPartition.num, labelled.components_roots rootInside, joinedSize]
  · intro pixel pixelInside
    exact labelled.output_lt pixel pixelInside
  · intro label bound
    dsimp only at bound
    rw [labelled.components] at bound
    exact labelled.first label bound
  · intro left leftInside right rightInside same
    have linked := (sameLabel left right leftInside rightInside).mp same
    refine linked.mono ?_
    intro one other pair
    obtain ⟨edge, member, rfl, rfl⟩ := moreAlong one other pair
    obtain ⟨aInside, bInside⟩ := inside edge member
    exact ⟨beside edge member, (sameLabel _ _ aInside bInside).mpr (Relation.EqvGen.rel _ _ pair)⟩
  · rcases settled_cases (width * height) minSize (imageEdges diff width height) more
      (fun left leftInside right rightInside =>
        imageEdges_connected diff width height left right leftInside rightInside) settled
      with whole | large
    · have atMost := labelled.components_le_one (fun left leftInside right rightInside =>
        (joinedPartition.represents left right).mpr (whole left leftInside right rightInside))
      rcases Nat.lt_or_eq_of_le atMost with none | one
      · refine Or.inr ?_
        intro label bound
        exact absurd (Nat.lt_of_lt_of_le bound (Nat.le_of_lt_succ none)) (Nat.not_lt_zero label)
      · exact Or.inl one
    · refine Or.inr ?_
      intro label bound
      dsimp only at bound ⊢
      rw [labelled.components] at bound
      obtain ⟨place, placeInside, isLabel, _before⟩ := labelled.first label bound
      have atLeast := large place placeInside
      rw [← joinedSize] at atLeast
      have members := (joinedPartition.members_atLeast minSize place).mp atLeast
      rw [joinedSize, ← labelled.pixels place placeInside, isLabel] at members
      exact members

def stripeWeights (x1 y1 x2 y2 : Nat) : Int :=
  if (x1 + y1) % 3 = (x2 + y2) % 3 then 0 else 7

def tenths : Floats Int where
  zero := 0
  less first second := decide (first < second)
  atMost first second := decide (first ≤ second)
  add first second := first + second
  share size := 40 / size

theorem segmentImage_components_sample :
    ∃ result, segmentImage tenths 5 stripeWeights 4 5 3 (fun _pixel => 0) = some result ∧
      result.numCcs = result.components ∧
      (result.components = 1 ∨ ∀ label < result.components,
        3 ≤ ((List.range 20).filter (fun pixel => result.output pixel = label)).length) := by
  obtain ⟨result, ran, counted, _inside, _first, _connected, sizes⟩ :=
    segmentImage_components tenths 5 stripeWeights 4 5 3 (fun _pixel => 0)
      (Nat.log_lt_of_lt_pow (by decide) (by decide))
  exact ⟨result, ran, counted, sizes.imp_right (fun all label bound => by exact_mod_cast all label bound)⟩

end

end BlackboxProfiling.SdVbs.Segment
