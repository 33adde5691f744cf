import BlackboxProfiling.SdVbs.SortIndices
import BlackboxProfiling.UnionByRank

/-!
`segment-graph.c`: the universe of components, joined by rank, and the loop that joins
the ends of an edge where its weight is within both thresholds.
-/

namespace BlackboxProfiling.SdVbs.Segment

open DisjointSets

structure UniElt where
  rank : Nat
  p : Nat
  size : Nat

/-- `universe`, with the number of elements that were allocated. -/
structure Universe where
  vertices : Nat
  elts : Nat → UniElt
  num : Int

structure Edge (V : Type) where
  w : V
  a : Nat
  b : Nat

/-- The operations on `float` that the segmentation uses; `share` is `c/size`. -/
structure Floats (V : Type) where
  zero : V
  less : V → V → Bool
  atMost : V → V → Bool
  add : V → V → V
  share : Nat → V

/-- The climb to a root, within a number of steps. An element behind the array is no result. -/
def findLoop (u : Universe) : Nat → Nat → Option Nat
  | 0, _y => none
  | steps + 1, y =>
      if y < u.vertices then
        if y = (u.elts y).p then some y else findLoop u steps (u.elts y).p
      else none

def Universe.setParent (u : Universe) (x y : Nat) : Universe :=
  { u with elts := Function.update u.elts x { u.elts x with p := y } }

def find (steps : Nat) (u : Universe) (x : Nat) : Option (Nat × Universe) := do
  let y ← findLoop u steps x
  return (y, u.setParent x y)

def Universe.link (u : Universe) (child parent : Nat) : Universe :=
  let below := u.setParent child parent
  { below with
    elts := Function.update below.elts parent
      { below.elts parent with size := (below.elts parent).size + (below.elts child).size } }

def join (u : Universe) (x y : Nat) : Universe :=
  let joined :=
    if (u.elts y).rank < (u.elts x).rank then u.link y x
    else
      let below := u.link x y
      if (below.elts x).rank = (below.elts y).rank then
        { below with
          elts := Function.update below.elts y
            { below.elts y with rank := (below.elts y).rank + 1 } }
      else below
  { joined with num := joined.num - 1 }

section

variable {V : Type} (floats : Floats V) (steps : Nat)

structure Graph (V : Type) where
  u : Universe
  threshold : Nat → V

def startGraph (vertices : Nat) : Graph V where
  u := ⟨vertices, fun i => ⟨0, i, 1⟩, vertices⟩
  threshold _i := floats.share 1

def graphTurn (edge : Edge V) (graph : Graph V) : Option (Graph V) := do
  let (a, u) ← find steps graph.u edge.a
  let (b, u) ← find steps u edge.b
  if a ≠ b ∧ floats.atMost edge.w (graph.threshold a) ∧ floats.atMost edge.w (graph.threshold b) then
    let (a, u) ← find steps (join u a b) a
    return ⟨u, Function.update graph.threshold a
      (floats.add edge.w (floats.share (u.elts a).size))⟩
  else return ⟨u, graph.threshold⟩

/-- The first turns, over the edges by their sorted indices. -/
def graphLoop (edges : List (Edge V)) (indices : Nat → Nat) (graph : Graph V) :
    Nat → Option (Graph V)
  | 0 => some graph
  | i + 1 => do
      let before ← graphLoop edges indices graph i
      let edge ← edges[indices i]?
      graphTurn floats steps edge before

def edgeWeights (edges : List (Edge V)) : F2D V where
  width := edges.length
  height := 1
  data k := (edges[k]?).elim floats.zero Edge.w

def segmentGraph (vertices : Nat) (edges : List (Edge V)) : Option Universe := do
  let indices := fSortIndices floats.less floats.zero (edgeWeights floats edges) 1 0
  let graph ← graphLoop floats steps edges indices (startGraph floats vertices) edges.length
  return graph.u

end

/-- The universe holds a forest joined by rank, whose sets are what the pairs connect. -/
structure Partition (u : Universe) (forest : Forest Nat) (pairs : Nat → Nat → Prop) : Prop where
  link : ∀ node < u.vertices, (u.elts node).p = forest.link node
  outside : ∀ node, u.vertices ≤ node → forest.link node = node
  ranked : Ranked forest (fun node => (u.elts node).rank) (fun node => (u.elts node).size)
    (List.range u.vertices)
  num : u.num = (forest.roots (List.range u.vertices)).length
  represents : forest.Represents pairs

section

variable {u : Universe} {forest : Forest Nat} {pairs : Nat → Nat → Prop}

theorem Partition.root_lt (partition : Partition u forest pairs) (node : Nat)
    (inside : node < u.vertices) : forest.root node < u.vertices :=
  List.mem_range.mp (partition.ranked.root_mem node (List.mem_range.mpr inside))

theorem Partition.size_root (partition : Partition u forest pairs) (node : Nat)
    (inside : node < u.vertices) : (u.elts (forest.root node)).size =
      (forest.members (List.range u.vertices) (forest.root node)).length :=
  partition.ranked.size _ (List.mem_range.mpr (partition.root_lt node inside)) (forest.link_root node)

private theorem findLoop_root (partition : Partition u forest pairs) (node steps : Nat)
    (inside : node < u.vertices) (enough : (forest.path node).length < steps) :
    findLoop u steps node = some (forest.root node) := by
  induction node using forest.link_induction generalizing steps with
  | rooted node rooted =>
      obtain ⟨left, rfl⟩ : ∃ left, steps = left + 1 := ⟨steps - 1, by omega⟩
      rw [findLoop, if_pos inside, partition.link node inside, if_pos rooted.symm,
        forest.root_self node rooted]
  | step node passed ih =>
      obtain ⟨left, rfl⟩ : ∃ left, steps = left + 1 := ⟨steps - 1, by omega⟩
      rw [forest.path_step node passed, List.length_cons] at enough
      rw [findLoop, if_pos inside, partition.link node inside, if_neg (Ne.symm passed),
        forest.root_step node passed]
      exact ih left (List.mem_range.mp (partition.ranked.closed node (List.mem_range.mpr inside)))
        (by omega)

theorem find_partition (partition : Partition u forest pairs) (steps : Nat)
    (enough : Nat.log 2 u.vertices < steps) (node : Nat) (inside : node < u.vertices) :
    ∃ after, find steps u node = some (forest.root node, after) ∧ after.vertices = u.vertices ∧
      Partition after (forest.shorten node) pairs := by
  have short := partition.ranked.path_log node (List.mem_range.mpr inside)
  rw [List.length_range] at short
  have found := findLoop_root partition node steps inside (Nat.lt_of_le_of_lt short enough)
  have fields (other : Nat) : (u.setParent node (forest.root node)).elts other =
      ⟨(u.elts other).rank, if other = node then forest.root node else (u.elts other).p,
        (u.elts other).size⟩ := by
    rw [Universe.setParent]
    dsimp only
    by_cases here : other = node
    · rw [here, Function.update_self, if_pos rfl]
    · rw [Function.update_of_ne here, if_neg here]
  refine ⟨u.setParent node (forest.root node), by rw [find, found]; rfl, rfl, ?_⟩
  constructor
  case link =>
    intro other otherInside
    rw [Forest.shorten_link, fields]
    dsimp only
    by_cases here : other = node
    · rw [if_pos here, here, Function.update_self]
    · rw [if_neg here, Function.update_of_ne here]
      exact partition.link other otherInside
  case outside =>
    intro other behind
    have notNode : other ≠ node := Nat.ne_of_gt (Nat.lt_of_lt_of_le inside behind)
    rw [Forest.shorten_link, Function.update_of_ne notNode]
    exact partition.outside other behind
  case ranked =>
    simp only [fields]
    exact partition.ranked.shorten node (List.mem_range.mpr inside)
  case num =>
    rw [forest.shorten_roots]
    exact partition.num
  case represents => exact partition.represents.of_sameRoots (forest.shorten_root node)

theorem Partition.attach (partition : Partition u forest pairs) (child parent : Nat)
    (different : forest.root parent ≠ child) (rooted : forest.link child = child)
    (parentRooted : forest.link parent = parent) (inside : child < u.vertices)
    (parentInside : parent < u.vertices) (low : (u.elts child).rank ≤ (u.elts parent).rank)
    (first second : Nat)
    (ends : (forest.root first = child ∧ forest.root second = parent) ∨
      (forest.root second = child ∧ forest.root first = parent))
    (after : Universe) (vertices : after.vertices = u.vertices) (num : after.num = u.num - 1)
    (p : ∀ node, (after.elts node).p = if node = child then parent else (u.elts node).p)
    (rank : ∀ node, (after.elts node).rank =
      joinRank (fun other => (u.elts other).rank) child parent node)
    (size : ∀ node, (after.elts node).size =
      joinSize (fun other => (u.elts other).size) child parent node) :
    Partition after (forest.attach child parent different rooted) (addPair pairs first second) := by
  have childMember := List.mem_range.mpr inside
  constructor
  case link =>
    intro node nodeInside
    rw [vertices] at nodeInside
    rw [p, Forest.attach_link]
    by_cases here : node = child
    · rw [if_pos here, here, Function.update_self]
    · rw [if_neg here, Function.update_of_ne here]
      exact partition.link node nodeInside
  case outside =>
    intro node behind
    rw [vertices] at behind
    rw [Forest.attach_link, Function.update_of_ne (by omega)]
    exact partition.outside node behind
  case ranked =>
    rw [vertices, funext rank, funext size]
    exact partition.ranked.attach child parent different rooted parentRooted childMember
      (List.mem_range.mpr parentInside) low
  case num =>
    have fewer := forest.attach_roots child parent different rooted (List.range u.vertices)
      List.nodup_range childMember
    rw [num, partition.num, vertices, ← fewer]
    omega
  case represents =>
    apply partition.represents.joined
    rw [forest.root_self parent parentRooted]
    exact ends

private theorem link_elts (u : Universe) (child parent : Nat) (different : child ≠ parent)
    (node : Nat) :
    (u.link child parent).elts node =
      ⟨(u.elts node).rank, if node = child then parent else (u.elts node).p,
        joinSize (fun other => (u.elts other).size) child parent node⟩ := by
  rw [Universe.link, Universe.setParent, joinSize]
  dsimp only
  by_cases atParent : node = parent
  · rw [atParent, Function.update_self, Function.update_self, Function.update_self,
      Function.update_of_ne different.symm, if_neg different.symm]
  · rw [Function.update_of_ne atParent, Function.update_of_ne atParent]
    by_cases atChild : node = child
    · rw [atChild, Function.update_self, if_pos rfl]
    · rw [Function.update_of_ne atChild, if_neg atChild]

private theorem join_counts (u : Universe) (x y : Nat) :
    (join u x y).vertices = u.vertices ∧ (join u x y).num = u.num - 1 := by
  rw [join]
  dsimp only
  split
  · exact ⟨rfl, rfl⟩
  · split <;> exact ⟨rfl, rfl⟩

private theorem join_elts_higher (u : Universe) (x y : Nat) (different : x ≠ y)
    (higher : (u.elts y).rank < (u.elts x).rank) (node : Nat) :
    (join u x y).elts node =
      ⟨joinRank (fun other => (u.elts other).rank) y x node,
        if node = y then x else (u.elts node).p,
        joinSize (fun other => (u.elts other).size) y x node⟩ := by
  rw [join, if_pos higher, joinRank, if_neg (Nat.ne_of_lt higher)]
  exact link_elts u y x different.symm node

private theorem join_elts_lower (u : Universe) (x y : Nat) (different : x ≠ y)
    (lower : ¬ (u.elts y).rank < (u.elts x).rank) (node : Nat) :
    (join u x y).elts node =
      ⟨joinRank (fun other => (u.elts other).rank) x y node,
        if node = x then y else (u.elts node).p,
        joinSize (fun other => (u.elts other).size) x y node⟩ := by
  have fields := link_elts u x y different
  have sameRank (other : Nat) : ((u.link x y).elts other).rank = (u.elts other).rank := by
    rw [fields]
  rw [join, if_neg lower, joinRank]
  dsimp only
  rw [sameRank, sameRank]
  split
  · -- only the rank of the upper root differs from what the link left
    dsimp only
    by_cases here : node = y
    · rw [here, Function.update_self, Function.update_self, fields]
    · rw [Function.update_of_ne here, Function.update_of_ne here, fields]
  · exact fields node

theorem join_partition (partition : Partition u forest pairs) (first second : Nat)
    (inside : first < u.vertices) (otherInside : second < u.vertices)
    (apart : forest.root first ≠ forest.root second) :
    ∃ joined, (join u (forest.root first) (forest.root second)).vertices = u.vertices ∧
      Partition (join u (forest.root first) (forest.root second)) joined
        (addPair pairs first second) := by
  have rootInside := partition.root_lt first inside
  have otherRootInside := partition.root_lt second otherInside
  have rooted := forest.link_root first
  have otherRooted := forest.link_root second
  obtain ⟨vertices, num⟩ := join_counts u (forest.root first) (forest.root second)
  by_cases higher : (u.elts (forest.root second)).rank < (u.elts (forest.root first)).rank
  · have fields := join_elts_higher u (forest.root first) (forest.root second) apart higher
    refine ⟨forest.attach (forest.root second) (forest.root first) (by rwa [forest.root_root])
      otherRooted, vertices, ?_⟩
    exact partition.attach (forest.root second) (forest.root first) (by rwa [forest.root_root])
      otherRooted rooted otherRootInside rootInside (Nat.le_of_lt higher) first second
      (Or.inr ⟨rfl, rfl⟩) _ vertices num (fun node => by rw [fields]) (fun node => by rw [fields])
      (fun node => by rw [fields])
  · have fields := join_elts_lower u (forest.root first) (forest.root second) apart higher
    have upwards : forest.root (forest.root second) ≠ forest.root first := by
      rw [forest.root_root]
      exact apart.symm
    refine ⟨forest.attach (forest.root first) (forest.root second) upwards rooted, vertices, ?_⟩
    exact partition.attach (forest.root first) (forest.root second) upwards rooted otherRooted
      rootInside otherRootInside (Nat.not_lt.mp higher) first second (Or.inl ⟨rfl, rfl⟩) _ vertices
      num (fun node => by rw [fields]) (fun node => by rw [fields]) (fun node => by rw [fields])

theorem find_both (partition : Partition u forest pairs) (steps : Nat)
    (enough : Nat.log 2 u.vertices < steps) (a b : Nat) (inside : a < u.vertices)
    (otherInside : b < u.vertices) :
    ∃ middle after shortened, find steps u a = some (forest.root a, middle) ∧
      find steps middle b = some (forest.root b, after) ∧ after.vertices = u.vertices ∧
      Partition after shortened pairs ∧ ∀ node, shortened.root node = forest.root node := by
  obtain ⟨middle, found, vertices, shorter⟩ := find_partition partition steps enough a inside
  rw [← vertices] at enough otherInside
  obtain ⟨after, otherFound, otherVertices, shortest⟩ :=
    find_partition shorter steps enough b otherInside
  rw [forest.shorten_root] at otherFound
  refine ⟨middle, after, _, found, otherFound, otherVertices.trans vertices, shortest, ?_⟩
  intro node
  rw [Forest.shorten_root, Forest.shorten_root]

end

def Along {V : Type} (edges : List (Edge V)) (pairs : Nat → Nat → Prop) : Prop :=
  ∀ left right, pairs left right → ∃ edge ∈ edges, edge.a = left ∧ edge.b = right

theorem Along.addPair {V : Type} {edges : List (Edge V)} {pairs : Nat → Nat → Prop}
    (along : Along edges pairs) (edge : Edge V) (member : edge ∈ edges) :
    Along edges (DisjointSets.addPair pairs edge.a edge.b) := by
  intro left right pair
  rcases pair with earlier | ⟨isLeft, isRight⟩
  · exact along left right earlier
  · exact ⟨edge, member, isLeft.symm, isRight.symm⟩

section

variable {V : Type} (floats : Floats V) {steps vertices : Nat}

private theorem graphTurn_partition (enough : Nat.log 2 vertices < steps) (edges : List (Edge V))
    (inside : ∀ edge ∈ edges, edge.a < vertices ∧ edge.b < vertices) (edge : Edge V)
    (member : edge ∈ edges) (graph : Graph V) (forest : Forest Nat) (pairs : Nat → Nat → Prop)
    (size : graph.u.vertices = vertices) (partition : Partition graph.u forest pairs)
    (along : Along edges pairs) :
    ∃ after joined more, graphTurn floats steps edge graph = some after ∧
      after.u.vertices = vertices ∧ Partition after.u joined more ∧ Along edges more := by
  obtain ⟨aInside, bInside⟩ := inside edge member
  rw [← size] at enough aInside bInside
  obtain ⟨middle, found, shortened, foundA, foundB, sameSize, shorter, sameRoots⟩ :=
    find_both partition steps enough edge.a edge.b aInside bInside
  rw [← sameSize] at enough aInside bInside
  rw [graphTurn, foundA]
  dsimp only [Option.bind_eq_bind, Option.bind_some]
  rw [foundB]
  dsimp only [Option.bind_some]
  split
  · rename_i joins
    have apart : shortened.root edge.a ≠ shortened.root edge.b := by
      rw [sameRoots, sameRoots]
      exact joins.1
    obtain ⟨joined, joinedSize, joinedPartition⟩ :=
      join_partition shorter edge.a edge.b aInside bInside apart
    rw [sameRoots, sameRoots] at joinedSize joinedPartition
    have rootInside : forest.root edge.a < found.vertices := by
      rw [sameSize]
      exact partition.root_lt edge.a (sameSize ▸ aInside)
    obtain ⟨after, again, afterSize, afterPartition⟩ := find_partition joinedPartition steps
      (by rw [joinedSize]; exact enough) (forest.root edge.a) (by rw [joinedSize]; exact rootInside)
    rw [again]
    exact ⟨_, _, _, rfl, afterSize.trans (joinedSize.trans (sameSize.trans size)), afterPartition,
      along.addPair edge member⟩
  · exact ⟨_, _, _, rfl, sameSize.trans size, shorter, along⟩

private theorem startGraph_partition (vertices : Nat) :
    Partition (startGraph floats vertices).u (Forest.separate Nat) (fun _left _right => False) where
  link _node _inside := rfl
  outside _node _behind := rfl
  ranked := Ranked.separate (List.range vertices) List.nodup_range
  num := by
    have all : (Forest.separate Nat).roots (List.range vertices) = List.range vertices :=
      List.filter_eq_self.mpr (fun node _listed => decide_eq_true rfl)
    rw [startGraph]
    dsimp only
    rw [all, List.length_range]
  represents := Forest.separate_represents _ (fun _left _right impossible => impossible)

private theorem graphLoop_partition (enough : Nat.log 2 vertices < steps) (edges : List (Edge V))
    (inside : ∀ edge ∈ edges, edge.a < vertices ∧ edge.b < vertices) (indices : Nat → Nat)
    (listed : ∀ i < edges.length, indices i < edges.length) (turns : Nat)
    (within : turns ≤ edges.length) :
    ∃ after forest pairs,
      graphLoop floats steps edges indices (startGraph floats vertices) turns = some after ∧
      after.u.vertices = vertices ∧ Partition after.u forest pairs ∧ Along edges pairs := by
  induction turns with
  | zero => exact ⟨_, _, _, rfl, rfl, startGraph_partition floats vertices,
      fun _left _right impossible => False.elim impossible⟩
  | succ i ih =>
      obtain ⟨before, forest, pairs, ran, size, partition, along⟩ := ih (Nat.le_of_succ_le within)
      have edgeInside := listed i within
      obtain ⟨after, joined, more, turned, afterSize, afterPartition, afterAlong⟩ :=
        graphTurn_partition floats enough edges inside edges[indices i] (List.getElem_mem edgeInside)
          before forest pairs size partition along
      refine ⟨after, joined, more, ?_, afterSize, afterPartition, afterAlong⟩
      rw [graphLoop, ran]
      dsimp only [Option.bind_eq_bind, Option.bind_some]
      rw [List.getElem?_eq_getElem edgeInside]
      exact turned

theorem segmentGraph_partition (enough : Nat.log 2 vertices < steps) (edges : List (Edge V))
    (inside : ∀ edge ∈ edges, edge.a < vertices ∧ edge.b < vertices) :
    ∃ u forest pairs, segmentGraph floats steps vertices edges = some u ∧ u.vertices = vertices ∧
      Partition u forest pairs ∧ Along edges pairs := by
  have listed (i : Nat) (before : i < edges.length) :
      fSortIndices floats.less floats.zero (edgeWeights floats edges) 1 0 i < edges.length :=
    fSortIndices_lt floats.less floats.zero (edgeWeights floats edges) 0 i before
  obtain ⟨after, forest, pairs, ran, size, partition, along⟩ := graphLoop_partition floats enough
    edges inside _ listed edges.length (Nat.le_refl _)
  refine ⟨after.u, forest, pairs, ?_, size, partition, along⟩
  rw [segmentGraph, ran]
  rfl

/-! ### The order of the edges -/

/-- The edge at an index; an index behind the last edge does not occur. -/
def edgeAt (edges : List (Edge V)) (i : Nat) : Edge V := edges[i]?.getD ⟨floats.zero, 0, 0⟩

private theorem edgeAt_inside (edges : List (Edge V)) (i : Nat) (inside : i < edges.length) :
    edgeAt floats edges i = edges[i] := by
  rw [edgeAt, List.getElem?_eq_getElem inside, Option.getD_some]

private theorem map_edgeAt (edges : List (Edge V)) (start : Nat) :
    (List.range' start (edges.length - start)).map (edgeAt floats edges) = edges.drop start := by
  apply List.ext_getElem
  · rw [List.length_map, List.length_range', List.length_drop]
  · intro i inside otherInside
    rw [List.length_drop] at otherInside
    rw [List.getElem_map, List.getElem_range', List.getElem_drop, Nat.one_mul,
      edgeAt_inside floats edges _ (by omega)]

private theorem graphLoop_visits (steps : Nat) (edges : List (Edge V)) (indices : Nat → Nat)
    (graph : Graph V) (turns : Nat) (listed : ∀ i < turns, indices i < edges.length) :
    graphLoop floats steps edges indices graph turns =
      (((List.range turns).map indices).map (edgeAt floats edges)).foldlM
        (fun before edge => graphTurn floats steps edge before) graph := by
  induction turns with
  | zero => rfl
  | succ i ih =>
      have here := listed i (Nat.lt_succ_self i)
      have found := edgeAt_inside floats edges (indices i) here
      rw [graphLoop, ih (fun j before => listed j (Nat.lt_succ_of_lt before)), List.range_succ,
        List.map_append, List.map_append, List.foldlM_append, List.getElem?_eq_getElem here]
      dsimp only [Option.bind_eq_bind, Option.bind_some]
      rw [List.map_singleton, List.map_singleton, found]
      simp only [List.foldlM_cons, List.foldlM_nil, bind_pure]

private theorem edgeWeights_edgeAt (edges : List (Edge V)) (i : Nat) (inside : i < edges.length) :
    (edgeWeights floats edges).subsref 0 i = (edgeAt floats edges i).w := by
  rw [F2D.subsref, edgeWeights, edgeAt_inside floats edges i inside]
  dsimp only
  rw [Nat.zero_mul, Nat.zero_add, List.getElem?_eq_getElem inside]
  rfl

end

section

variable {V : Type} [LinearOrder V] [Zero V] (floats : Floats V)

private theorem positives_edges (edges : List (Edge V)) :
    (positives ((edgeWeights floats edges).subsref 0) edges.length).map (edgeAt floats edges) =
      edges.filter (fun edge => decide (0 < edge.w)) := by
  have all := map_edgeAt floats edges 0
  rw [Nat.sub_zero, ← List.range_eq_range', List.drop_zero] at all
  have same : positives ((edgeWeights floats edges).subsref 0) edges.length =
      (List.range edges.length).filter (fun i => decide (0 < (edgeAt floats edges i).w)) := by
    rw [positives]
    apply List.filter_congr
    intro i listed
    rw [edgeWeights_edgeAt floats edges i (List.mem_range.mp listed)]
  conv => rhs; rw [← all, List.filter_map]
  rw [same]
  rfl

private theorem visits_all (edges first : List (Edge V))
    (perm : first.Perm (edges.filter (fun edge => decide (0 < edge.w))))
    (nonnegative : ∀ edge ∈ edges, 0 ≤ edge.w) :
    (first ++ edges.drop first.length).Perm edges ↔
      ∀ edge ∈ edges.drop first.length, edge.w = 0 := by
  have halves := List.take_append_drop first.length edges
  have count := perm.length_eq
  conv at count => rhs; rw [← halves, List.filter_append, List.length_append]
  conv => lhs; rhs; rw [← halves]
  rw [List.perm_append_right_iff]
  constructor
  · intro same edge member
    have whole : (edges.take first.length).filter (fun edge => decide (0 < edge.w)) =
        edges.take first.length := by
      rw [List.filter_eq_self]
      intro early taken
      exact (List.mem_filter.mp (perm.mem_iff.mp (same.mem_iff.mpr taken))).2
    rw [whole, ← same.length_eq] at count
    have none : (edges.drop first.length).filter (fun edge => decide (0 < edge.w)) = [] :=
      List.eq_nil_of_length_eq_zero (by omega)
    have notAbove := List.filter_eq_nil_iff.mp none edge member
    rw [decide_eq_true_eq] at notAbove
    exact le_antisymm (not_lt.mp notAbove) (nonnegative edge (List.mem_of_mem_drop member))
  · intro zeros
    have none : (edges.drop first.length).filter (fun edge => decide (0 < edge.w)) = [] := by
      rw [List.filter_eq_nil_iff]
      intro edge member
      rw [decide_eq_true_eq, zeros edge member]
      exact lt_irrefl 0
    rw [none, List.length_nil, Nat.add_zero] at count
    have short := List.length_take_le first.length edges
    have whole : (edges.take first.length).filter (fun edge => decide (0 < edge.w)) =
        edges.take first.length :=
      List.filter_sublist.eq_of_length_le (by omega)
    rwa [← halves, List.filter_append, none, List.append_nil, whole] at perm

private theorem visited_again (edges first : List (Edge V))
    (perm : first.Perm (edges.filter (fun edge => decide (0 < edge.w))))
    (nonnegative : ∀ edge ∈ edges, 0 ≤ edge.w) (edge : Edge V)
    (later : edge ∈ edges.drop first.length) (above : 0 < edge.w) :
    edge ∈ first ∧ ∃ left ∈ edges.take first.length, left.w = 0 := by
  have listed := List.mem_of_mem_drop later
  constructor
  · exact perm.mem_iff.mpr (List.mem_filter.mpr ⟨listed, decide_eq_true above⟩)
  · -- without a zero before that place there would be one edge above zero too many
    by_contra absent
    have whole : (edges.take first.length).filter (fun edge => decide (0 < edge.w)) =
        edges.take first.length := by
      rw [List.filter_eq_self]
      intro early taken
      have atLeast := nonnegative early (List.mem_of_mem_take taken)
      exact decide_eq_true (lt_of_le_of_ne atLeast
        (fun zero => absent ⟨early, taken, zero.symm⟩))
    have again : 0 < ((edges.drop first.length).filter (fun edge => decide (0 < edge.w))).length :=
      List.length_pos_of_mem (List.mem_filter.mpr ⟨later, decide_eq_true above⟩)
    have inside : 0 < (edges.drop first.length).length := List.length_pos_of_mem later
    have count := perm.length_eq
    conv at count => rhs; rw [← List.take_append_drop first.length edges, List.filter_append, whole,
      List.length_append, List.length_take]
    rw [List.length_drop] at inside
    omega

/-- With weights that are not negative the loop visits the edges above zero once, from the
largest weight down, and then goes on with the edges of the list from that place on. One of
them above zero is visited again, and then one of weight zero is left out. -/
theorem segmentGraph_visits (steps vertices : Nat) (edges : List (Edge V))
    (less : floats.less = lessThan) (zero : floats.zero = 0)
    (nonnegative : ∀ edge ∈ edges, 0 ≤ edge.w) :
    ∃ first : List (Edge V), first.Perm (edges.filter (fun edge => decide (0 < edge.w))) ∧
      first.Pairwise (fun earlier later => later.w ≤ earlier.w) ∧
      segmentGraph floats steps vertices edges =
        ((first ++ edges.drop first.length).foldlM
          (fun before edge => graphTurn floats steps edge before)
          (startGraph floats vertices)).map Graph.u ∧
      ((first ++ edges.drop first.length).Perm edges ↔
        ∀ edge ∈ edges.drop first.length, edge.w = 0) ∧
      ∀ edge ∈ edges.drop first.length, 0 < edge.w →
        edge ∈ first ∧ ∃ left ∈ edges.take first.length, left.w = 0 := by
  have inside (i : Nat) (before : i < edges.length) : edgeAt floats edges i ∈ edges := by
    rw [edgeAt_inside floats edges i before]
    exact List.getElem_mem before
  obtain ⟨indices, split, perm, falls⟩ := (fSortIndices_falls (edgeWeights floats edges) 0
    (fun i before => by
      rw [edgeWeights_edgeAt floats edges i before]
      exact nonnegative _ (inside i before))).1
  have width : (edgeWeights floats edges).width = edges.length := rfl
  rw [width] at perm split
  rw [← perm.length_eq] at split
  have first := perm.map (edgeAt floats edges)
  rw [positives_edges] at first
  refine ⟨indices.map (edgeAt floats edges), first, ?_, ?_, ?_, ?_⟩
  · rw [List.pairwise_map]
    apply falls.imp_of_mem
    intro earlier later member laterMember below
    have earlierInside := ((mem_positives _ _ _).mp (perm.mem_iff.mp member)).1
    have laterInside := ((mem_positives _ _ _).mp (perm.mem_iff.mp laterMember)).1
    rwa [edgeWeights_edgeAt floats edges earlier earlierInside,
      edgeWeights_edgeAt floats edges later laterInside] at below
  · have listed (i : Nat) (before : i < edges.length) :
        fSortIndices floats.less floats.zero (edgeWeights floats edges) 1 0 i < edges.length :=
      fSortIndices_lt floats.less floats.zero (edgeWeights floats edges) 0 i before
    have ran := graphLoop_visits floats steps edges _ (startGraph floats vertices) edges.length
      listed
    rw [segmentGraph, ran, less, zero, split, List.map_append, map_edgeAt, List.length_map,
      Option.map_eq_bind]
    rfl
  · exact visits_all edges _ first nonnegative
  · exact visited_again edges _ first nonnegative

def wholeNumbers : Floats Int where
  zero := 0
  less := lessThan
  atMost first second := decide (first ≤ second)
  add := Int.add
  share size := 8 / size

def threeEdges : List (Edge Int) := [⟨3, 0, 1⟩, ⟨0, 1, 2⟩, ⟨5, 2, 0⟩]

/-- The third edge is visited first and last, the second one never. -/
theorem segmentGraph_visits_sample :
    ∃ first : List (Edge Int), first.length = 2 ∧
      first.Pairwise (fun earlier later => later.w ≤ earlier.w) ∧
      segmentGraph wholeNumbers 2 3 threeEdges =
        ((first ++ threeEdges.drop 2).foldlM
          (fun before edge => graphTurn wholeNumbers 2 edge before)
          (startGraph wholeNumbers 3)).map Graph.u ∧
      (⟨5, 2, 0⟩ : Edge Int) ∈ first ∧ ¬ (first ++ threeEdges.drop 2).Perm threeEdges := by
  obtain ⟨first, perm, falls, ran, all, again⟩ :=
    segmentGraph_visits wholeNumbers 2 3 threeEdges rfl rfl (by decide)
  have two : first.length = 2 := perm.length_eq
  rw [two] at ran all again
  have last := List.mem_singleton_self (⟨5, 2, 0⟩ : Edge Int)
  refine ⟨first, two, falls, ran, (again _ last (by decide)).1, ?_⟩
  intro whole
  exact absurd (all.mp whole _ last) (by decide)

end

end BlackboxProfiling.SdVbs.Segment
