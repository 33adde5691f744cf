import BlackboxProfiling.DisjointSets
import BlackboxProfiling.SdVbs.Mser

/-!
The forest of the tree loop as disjoint sets: what a search, a new pixel and a join
make of it.
-/

namespace BlackboxProfiling.SdVbs.Mser

open DisjointSets (Forest addPair)

/-- The pixels around a pixel; an index counts the pixels down the columns. -/
def Touching (image : I2D) (left right : Nat) : Prop :=
  left ≠ right ∧ left < nel image ∧ right < nel image ∧
    ((left % image.height : Nat) - (right % image.height : Nat) : Int).natAbs ≤ 1 ∧
    ((left / image.height : Nat) - (right / image.height : Nat) : Int).natAbs ≤ 1

theorem Touching.symm {image : I2D} {left right : Nat} (touching : Touching image left right) :
    Touching image right left := by
  obtain ⟨different, leftInside, rightInside, rows, columns⟩ := touching
  exact ⟨different.symm, rightInside, leftInside, by omega, by omega⟩

private theorem mem_neighborOffsets (offset : Int × Int) :
    offset ∈ neighborOffsets ↔ (-1 ≤ offset.1 ∧ offset.1 ≤ 1) ∧ -1 ≤ offset.2 ∧ offset.2 ≤ 1 := by
  have listed : neighborOffsets =
      [(-1, -1), (0, -1), (1, -1), (-1, 0), (0, 0), (1, 0), (-1, 1), (0, 1), (1, 1)] := by
    decide
  obtain ⟨row, column⟩ := offset
  rw [listed]
  simp only [List.mem_cons, List.not_mem_nil, Prod.mk.injEq, or_false]
  omega

theorem neighborIndex_eq_some (image : I2D) (index nindex : Nat) (offset : Int × Int) :
    neighborIndex image index offset = some nindex ↔ nindex < nel image ∧
      (nindex % image.height : Nat) = offset.1 + (index % image.height : Nat) ∧
      (nindex / image.height : Nat) = offset.2 + (index / image.height : Nat) := by
  rw [neighborIndex, nel]
  constructor
  · intro found
    split at found
    · rename_i bounds
      obtain ⟨rowLow, rowHigh, columnLow, columnHigh⟩ := bounds
      have row : (offset.1 + (index % image.height : Nat)).toNat < image.height := by omega
      have column : (offset.2 + (index / image.height : Nat)).toNat < image.width := by omega
      rw [← Option.some.inj found, Nat.add_mul_mod_self_right, Nat.mod_eq_of_lt row,
        Nat.add_mul_div_right _ _ (Nat.zero_lt_of_lt row), Nat.div_eq_of_lt row]
      refine ⟨?_, by omega, by omega⟩
      calc _ < image.height + (offset.2 + (index / image.height : Nat)).toNat * image.height :=
            Nat.add_lt_add_right row _
        _ = ((offset.2 + (index / image.height : Nat)).toNat + 1) * image.height := by
            rw [Nat.add_mul, Nat.one_mul, Nat.add_comm]
        _ ≤ image.width * image.height := Nat.mul_le_mul_right _ column
        _ = image.height * image.width := Nat.mul_comm _ _
    · cases found
  · intro position
    obtain ⟨inside, row, column⟩ := position
    have tall : 0 < image.height := Nat.pos_of_mul_pos_right (Nat.zero_lt_of_lt inside)
    have rowInside := Nat.mod_lt nindex tall
    have columnInside : nindex / image.height < image.width := Nat.div_lt_of_lt_mul inside
    rw [← row, ← column, if_pos ⟨Int.natCast_nonneg _, Int.ofNat_lt.mpr rowInside,
        Int.natCast_nonneg _, Int.ofNat_lt.mpr columnInside⟩,
      Int.toNat_natCast, Int.toNat_natCast, Nat.mul_comm, Nat.mod_add_div]

theorem neighborIndex_touching (image : I2D) (index nindex : Nat) (inside : index < nel image) :
    ((∃ offset ∈ neighborOffsets, neighborIndex image index offset = some nindex) ∧
      nindex ≠ index) ↔ Touching image index nindex := by
  constructor
  · intro both
    obtain ⟨⟨offset, member, found⟩, different⟩ := both
    obtain ⟨small, large⟩ := (mem_neighborOffsets offset).mp member
    obtain ⟨neighborInside, row, column⟩ := (neighborIndex_eq_some _ _ _ _).mp found
    exact ⟨different.symm, inside, neighborInside, by omega, by omega⟩
  · intro touching
    obtain ⟨different, _inside, neighborInside, rows, columns⟩ := touching
    refine ⟨⟨((nindex % image.height : Nat) - (index % image.height : Nat),
      (nindex / image.height : Nat) - (index / image.height : Nat)), ?_, ?_⟩, different.symm⟩
    · rw [mem_neighborOffsets]
      dsimp only
      omega
    · rw [neighborIndex_eq_some]
      exact ⟨neighborInside, by omega, by omega⟩

structure Shortens (nodes : Nat → Node) (done : List Nat) (shortcuts parents : Forest Nat) :
    Prop where
  link : ∀ node ∈ done, shortcuts.link node = (nodes node).shortcut
  stays : ∀ node ∈ done, (nodes node).shortcut ∈ done
  outside : ∀ node, node ∉ done → shortcuts.link node = node
  roots : ∀ node, shortcuts.root node = parents.root node

/-- `done` lists the pixels in the tree, `pairs` are the neighbours looked at. -/
structure Grown (image : I2D) (done : List Nat) (pairs : Nat → Nat → Prop) (tree : Tree)
    (parents : Forest Nat) : Prop where
  distinct : done.Nodup
  inside : ∀ node ∈ done, node < nel image
  link : ∀ node ∈ done, (tree.forest node).parent = some (parents.link node)
  void : ∀ node, node ∉ done → (tree.forest node).parent = none ∧ parents.link node = node
  stays : ∀ node ∈ done, parents.link node ∈ done
  shortens : ∃ shortcuts, Shortens tree.forest done shortcuts parents
  represents : parents.Represents pairs
  area : ∀ node ∈ done, parents.link node = node →
    (tree.forest node).area = (parents.members done node).length
  rises : ∀ node ∈ done, image.data node ≤ image.data (parents.link node)
  joinsDistinct : tree.joins.Nodup
  joinsOrdered : tree.joins.Pairwise (fun earlier later => parents.link later ≠ earlier)
  joined : ∀ node, node ∈ tree.joins ↔ node ∈ done ∧ parents.link node ≠ node

section

variable {image : I2D} {done : List Nat} {pairs : Nat → Nat → Prop} {tree : Tree}
  {parents : Forest Nat}

theorem Grown.present_iff (grown : Grown image done pairs tree parents) (node : Nat) :
    ((tree.forest node).parent).isSome = true ↔ node ∈ done := by
  by_cases here : node ∈ done
  · rw [grown.link node here]
    exact iff_of_true rfl here
  · rw [(grown.void node here).1]
    exact iff_of_false Bool.false_ne_true here

theorem Grown.root_above (grown : Grown image done pairs tree parents) (node : Nat)
    (here : node ∈ done) :
    parents.root node ∈ done ∧ image.data node ≤ image.data (parents.root node) := by
  have path := parents.path_inside
    (fun other => other ∈ done ∧ image.data node ≤ image.data other)
    (fun other inside => ⟨grown.stays other inside.1, Int.le_trans inside.2 (grown.rises other inside.1)⟩)
    node ⟨here, Int.le_refl _⟩
  exact path.2

theorem Grown.done_length (grown : Grown image done pairs tree parents) :
    done.length ≤ nel image := by
  have within : done ⊆ List.range (nel image) := by
    intro node here
    exact List.mem_range.mpr (grown.inside node here)
  have bound := (List.subperm_of_subset grown.distinct within).length_le
  rwa [List.length_range] at bound

theorem Grown.area_lt (grown : Grown image done pairs tree parents) (top : Nat)
    (here : top ∈ done) (rooted : parents.link top = top) (other : Nat) (otherHere : other ∈ done)
    (apart : parents.root other ≠ top) : (tree.forest top).area < nel image := by
  rw [grown.area top here rooted]
  apply Nat.lt_of_lt_of_le _ grown.done_length
  rw [Forest.members, List.length_filter_lt_length_iff_exists]
  exact ⟨other, otherHere, by rw [decide_eq_true_eq]; exact apart⟩

/-- A root is left over, so there are fewer joins than pixels. -/
theorem Grown.joins_length (grown : Grown image done pairs tree parents) (node : Nat)
    (here : node ∈ done) : tree.joins.length < done.length := by
  have distinct : (parents.root node :: tree.joins).Nodup := by
    rw [List.nodup_cons]
    refine ⟨?_, grown.joinsDistinct⟩
    intro joined
    exact ((grown.joined _).mp joined).2 (parents.link_root node)
  have within : parents.root node :: tree.joins ⊆ done := by
    intro other listed
    rcases List.mem_cons.mp listed with same | joined
    · rw [same]
      exact (grown.root_above node here).1
    · exact ((grown.joined other).mp joined).1
  exact (List.subperm_of_subset distinct within).length_le

/-! ### A search -/

private theorem climb_root {nodes : Nat → Node} {shortcuts : Forest Nat}
    (shortens : Shortens nodes done shortcuts parents) (node : Nat) (here : node ∈ done)
    (room : Nat) (enough : (shortcuts.path node).length ≤ room) (visited : List Nat) :
    climb nodes room node visited =
      some (shortcuts.root node, (shortcuts.path node).reverse ++ visited) := by
  induction node using shortcuts.link_induction generalizing room visited with
  | rooted node rooted =>
      rw [climb_rooted _ _ _ _ (by rw [← shortens.link node here, rooted]), shortcuts.root_self node rooted,
        shortcuts.path_self node rooted]
      rfl
  | step node passed ih =>
      have shortcut := shortens.link node here
      rw [shortcuts.path_step node passed] at enough ⊢
      cases room with
      | zero => cases enough
      | succ left =>
          have passes : (nodes node).shortcut ≠ node := by
            rw [← shortcut]
            exact passed
          have stays : shortcuts.link node ∈ done := by
            rw [shortcut]
            exact shortens.stays node here
          rw [climb_passed _ _ _ _ passes, ← shortcut, ih stays left (Nat.le_of_succ_le_succ enough),
            shortcuts.root_link, List.reverse_cons, List.append_assoc]
          rfl

structure SameButShortcuts (before after : Tree) : Prop where
  parent : ∀ node, (after.forest node).parent = (before.forest node).parent
  area : ∀ node, (after.forest node).area = (before.forest node).area
  region : ∀ node, (after.forest node).region = (before.forest node).region
  regions : after.regions = before.regions
  joins : after.joins = before.joins

theorem SameButShortcuts.trans {first second third : Tree} (one : SameButShortcuts first second)
    (two : SameButShortcuts second third) : SameButShortcuts first third where
  parent node := (two.parent node).trans (one.parent node)
  area node := (two.area node).trans (one.area node)
  region node := (two.region node).trans (one.region node)
  regions := two.regions.trans one.regions
  joins := two.joins.trans one.joins

theorem Grown.rebuilt (grown : Grown image done pairs tree parents) (after : Tree)
    (parent : ∀ node, (after.forest node).parent = (tree.forest node).parent)
    (area : ∀ node, (after.forest node).area = (tree.forest node).area)
    (joins : after.joins = tree.joins)
    (shortens : ∃ shortcuts, Shortens after.forest done shortcuts parents) :
    Grown image done pairs after parents where
  distinct := grown.distinct
  inside := grown.inside
  link node here := by rw [parent, grown.link node here]
  void node absent := by
    rw [parent]
    exact grown.void node absent
  stays := grown.stays
  shortens := shortens
  represents := grown.represents
  area node here rooted := by rw [area, grown.area node here rooted]
  rises := grown.rises
  joinsDistinct := by
    rw [joins]
    exact grown.joinsDistinct
  joinsOrdered := by
    rw [joins]
    exact grown.joinsOrdered
  joined := by
    rw [joins]
    exact grown.joined

private theorem compress_shortens (top : Nat) (topHere : top ∈ done) (visited : List Nat)
    (before : Tree)
    (shortcuts : Forest Nat) (shortens : Shortens before.forest done shortcuts parents)
    (below : ∀ node ∈ visited, node ∈ done ∧ parents.root node = top) :
    SameButShortcuts before (compress top visited before) ∧
      (compress top visited before).rindex = before.rindex ∧
      ∃ after, Shortens (compress top visited before).forest done after parents := by
  induction visited generalizing before shortcuts with
  | nil =>
      exact ⟨⟨fun _node => rfl, fun _node => rfl, fun _node => rfl, rfl, rfl⟩, rfl, shortcuts,
        shortens⟩
  | cons node visited ih =>
      obtain ⟨nodeHere, nodeTop⟩ := below node List.mem_cons_self
      have rooted : shortcuts.root node = top := by rw [shortens.roots, nodeTop]
      let next : Tree := { before with
        forest := Function.update before.forest node { before.forest node with shortcut := top } }
      have stored (other : Nat) (elsewhere : other ≠ node) :
          next.forest other = before.forest other := Function.update_of_ne elsewhere _ _
      have storedHere : next.forest node = { before.forest node with shortcut := top } :=
        Function.update_self _ _ _
      have once : Shortens next.forest done (shortcuts.shorten node) parents := by
        constructor
        case link =>
          intro other here
          rw [shortcuts.shorten_link, rooted]
          by_cases same : other = node
          · rw [same, Function.update_self, storedHere]
          · rw [Function.update_of_ne same, stored other same, shortens.link other here]
        case stays =>
          intro other here
          by_cases same : other = node
          · rw [same, storedHere]
            exact topHere
          · rw [stored other same]
            exact shortens.stays other here
        case outside =>
          intro other absent
          have elsewhere : other ≠ node := fun same => absent (same ▸ nodeHere)
          rw [shortcuts.shorten_link, Function.update_of_ne elsewhere]
          exact shortens.outside other absent
        case roots =>
          intro other
          rw [shortcuts.shorten_root, shortens.roots]
      have unchanged {field : Type} (read : Node → field)
          (kept : read { before.forest node with shortcut := top } = read (before.forest node))
          (other : Nat) : read (next.forest other) = read (before.forest other) := by
        by_cases same : other = node
        · rw [same, storedHere, kept]
        · rw [stored other same]
      have first : SameButShortcuts before next :=
        ⟨unchanged Node.parent rfl, unchanged Node.area rfl, unchanged Node.region rfl, rfl, rfl⟩
      obtain ⟨same, sameIndex, after⟩ := ih next (shortcuts.shorten node) once
        (fun other later => below other (List.mem_cons_of_mem node later))
      exact ⟨first.trans same, sameIndex, after⟩

/-- A search ends within `visited_pt` at the root and only shortens ways to it. -/
theorem Grown.findRoot (grown : Grown image done pairs tree parents) (node : Nat)
    (here : node ∈ done) :
    ∃ found, Mser.findRoot image node tree = some (parents.root node, found) ∧
      SameButShortcuts tree found ∧ found.rindex = tree.rindex ∧
      Grown image done pairs found parents := by
  obtain ⟨shortcuts, shortens⟩ := grown.shortens
  have closed (other : Nat) (inside : other ∈ done) : shortcuts.link other ∈ done := by
    rw [shortens.link other inside]
    exact shortens.stays other inside
  have short := shortcuts.path_length_lt done closed node here
  have room : (shortcuts.path node).length ≤ nel image :=
    Nat.le_trans (Nat.le_of_lt short) grown.done_length
  have climbed := climb_root shortens node here (nel image) room []
  have below (other : Nat) (visited : other ∈ (shortcuts.path node).reverse ++ []) :
      other ∈ done ∧ parents.root other = parents.root node := by
    rw [List.append_nil, List.mem_reverse] at visited
    refine ⟨(shortcuts.path_inside (fun other => other ∈ done) closed node here).1 other visited, ?_⟩
    rw [← shortens.roots, ← shortens.roots]
    exact (shortcuts.path_member node other visited).2.1
  obtain ⟨same, sameIndex, after⟩ := compress_shortens (parents.root node)
    (grown.root_above node here).1 _ tree shortcuts shortens below
  refine ⟨_, ?_, same, sameIndex, grown.rebuilt _ same.parent same.area same.joins after⟩
  rw [Mser.findRoot, climbed, shortens.roots]
  rfl

theorem pushPixel_here (tree : Tree) (index : Nat) :
    (pushPixel tree index).forest index =
      { tree.forest index with parent := some index, shortcut := index, area := 1 } :=
  Function.update_self _ _ _

theorem pushPixel_other (tree : Tree) (index other : Nat) (elsewhere : other ≠ index) :
    (pushPixel tree index).forest other = tree.forest other :=
  Function.update_of_ne elsewhere _ _

theorem mem_concat_cases {index node : Nat} (member : node ∈ done ++ [index]) :
    node ∈ done ∨ node = index := by
  rw [List.mem_append, List.mem_singleton] at member
  exact member

theorem Shortens.pushPixel {shortcuts : Forest Nat}
    (shortens : Shortens tree.forest done shortcuts parents) (index : Nat)
    (fresh : index ∉ done) :
    Shortens (pushPixel tree index).forest (done ++ [index]) shortcuts parents := by
  have older (node : Nat) (here : node ∈ done) : node ≠ index := fun same => fresh (same ▸ here)
  constructor
  case link =>
    intro node member
    rcases mem_concat_cases member with here | same
    · rw [pushPixel_other _ _ _ (older node here)]
      exact shortens.link node here
    · rw [same, pushPixel_here]
      exact shortens.outside index fresh
  case stays =>
    intro node member
    rcases mem_concat_cases member with here | same
    · rw [pushPixel_other _ _ _ (older node here)]
      exact List.mem_append_left _ (shortens.stays node here)
    · rw [same, pushPixel_here]
      exact List.mem_append_right _ List.mem_cons_self
  case outside =>
    intro node absent
    exact shortens.outside node (fun here => absent (List.mem_append_left _ here))
  case roots => exact shortens.roots

theorem Grown.members_older (grown : Grown image done pairs tree parents) (index : Nat)
    (fresh : index ∉ done) (node : Nat) (here : node ∈ done) :
    parents.members (done ++ [index]) node = parents.members done node := by
  have rooted : parents.link index = index := (grown.void index fresh).2
  have alone : parents.members [index] node = [] := by
    rw [List.eq_nil_iff_forall_not_mem]
    intro other present
    obtain ⟨isIndex, itsRoot⟩ := (parents.mem_members _ _ _).mp present
    rw [List.mem_singleton.mp isIndex, parents.root_self index rooted] at itsRoot
    exact fresh (itsRoot.symm ▸ here)
  rw [parents.members_append, alone, List.append_nil]

theorem Grown.members_new (grown : Grown image done pairs tree parents) (index : Nat)
    (fresh : index ∉ done) : parents.members (done ++ [index]) index = [index] := by
  have rooted : parents.link index = index := (grown.void index fresh).2
  have none : parents.members done index = [] := by
    rw [List.eq_nil_iff_forall_not_mem]
    intro other present
    obtain ⟨otherHere, itsRoot⟩ := (parents.mem_members _ _ _).mp present
    have above := (grown.root_above other otherHere).1
    rw [itsRoot] at above
    exact fresh above
  rw [parents.members_append, none, List.nil_append]
  unfold Forest.members
  rw [List.filter_cons_of_pos (by rw [parents.root_self index rooted, decide_eq_true_eq])]
  rfl

theorem Grown.pushPixel (grown : Grown image done pairs tree parents) (index : Nat)
    (fresh : index ∉ done) (inside : index < nel image) :
    Grown image (done ++ [index]) pairs (pushPixel tree index) parents := by
  have older (node : Nat) (here : node ∈ done) : node ≠ index := fun same => fresh (same ▸ here)
  have rooted : parents.link index = index := (grown.void index fresh).2
  constructor
  case distinct =>
    refine List.Nodup.append grown.distinct (List.nodup_singleton index) ?_
    intro node here last
    exact older node here (List.mem_singleton.mp last)
  case inside =>
    intro node member
    rcases mem_concat_cases member with here | same
    · exact grown.inside node here
    · rw [same]
      exact inside
  case link =>
    intro node member
    rcases mem_concat_cases member with here | same
    · rw [pushPixel_other _ _ _ (older node here)]
      exact grown.link node here
    · rw [same, pushPixel_here, rooted]
  case void =>
    intro node absent
    have before : node ∉ done := fun here => absent (List.mem_append_left _ here)
    have elsewhere : node ≠ index := by
      intro same
      exact absent (List.mem_append_right _ (List.mem_singleton.mpr same))
    rw [pushPixel_other _ _ _ elsewhere]
    exact grown.void node before
  case stays =>
    intro node member
    rcases mem_concat_cases member with here | same
    · exact List.mem_append_left _ (grown.stays node here)
    · rw [same, rooted]
      exact List.mem_append_right _ List.mem_cons_self
  case shortens =>
    obtain ⟨shortcuts, shortens⟩ := grown.shortens
    exact ⟨shortcuts, shortens.pushPixel index fresh⟩
  case represents => exact grown.represents
  case area =>
    intro node member top
    rcases mem_concat_cases member with here | same
    · rw [pushPixel_other _ _ _ (older node here), grown.members_older index fresh node here]
      exact grown.area node here top
    · rw [same, pushPixel_here, grown.members_new index fresh]
      rfl
  case rises =>
    intro node member
    rcases mem_concat_cases member with here | same
    · exact grown.rises node here
    · exact Int.le_of_eq (by rw [same, rooted])
  case joinsDistinct => exact grown.joinsDistinct
  case joinsOrdered => exact grown.joinsOrdered
  case joined =>
    intro node
    refine (grown.joined node).trans (and_congr_left ?_)
    intro linked
    rw [List.mem_append, List.mem_singleton]
    constructor
    · exact Or.inl
    · intro either
      rcases either with here | same
      · exact here
      · rw [same] at linked
        exact absurd rooted linked

structure Joins (image : I2D) (done : List Nat) (parents : Forest Nat)
    (child parent first second : Nat) : Prop where
  different : child ≠ parent
  childHere : child ∈ done
  parentHere : parent ∈ done
  childTop : parents.link child = child
  parentTop : parents.link parent = parent
  rises : image.data child ≤ image.data parent
  ends : (parents.root first = child ∧ parents.root second = parent) ∨
    (parents.root second = child ∧ parents.root first = parent)

variable {child parent first second : Nat}

theorem Joins.apart (joins : Joins image done parents child parent first second) :
    parents.root parent ≠ child := by
  rw [parents.root_self parent joins.parentTop]
  exact joins.different.symm

def Joins.joined (joins : Joins image done parents child parent first second) : Forest Nat :=
  parents.attach child parent joins.apart joins.childTop

theorem Joins.root (joins : Joins image done parents child parent first second) (node : Nat) :
    joins.joined.root node = if parents.root node = child then parent else parents.root node := by
  rw [Joins.joined, parents.attach_root, parents.root_self parent joins.parentTop]

theorem Joins.link (joins : Joins image done parents child parent first second) :
    joins.joined.link = Function.update parents.link child parent := rfl

theorem Joins.members (joins : Joins image done parents child parent first second)
    (nodes : List Nat) :
    (joins.joined.members nodes parent).Perm
      (parents.members nodes child ++ parents.members nodes parent) := by
  have perm := parents.attach_members child parent joins.apart joins.childTop nodes
  rw [parents.root_self parent joins.parentTop] at perm
  exact perm

private theorem Joins.members_other (joins : Joins image done parents child parent first second)
    (nodes : List Nat) (top : Nat) (notChild : top ≠ child) (notParent : top ≠ parent) :
    joins.joined.members nodes top = parents.members nodes top := by
  apply parents.attach_members_other child parent joins.apart joins.childTop nodes top notChild
  rw [parents.root_self parent joins.parentTop]
  exact notParent

theorem Joins.shortens (joins : Joins image done parents child parent first second)
    {shortcuts : Forest Nat} (shortens : Shortens tree.forest done shortcuts parents) :
    ∃ after, Shortens (attach child parent tree).forest done after joins.joined := by
  have childTop : shortcuts.link child = child := by
    rw [← shortcuts.root_eq_self_iff, shortens.roots, parents.root_self child joins.childTop]
  have parentRoot : shortcuts.root parent = parent := by
    rw [shortens.roots, parents.root_self parent joins.parentTop]
  have apart : shortcuts.root parent ≠ child := by
    rw [parentRoot]
    exact joins.different.symm
  have shortcut (node : Nat) (elsewhere : node ≠ child) :
      ((attach child parent tree).forest node).shortcut = (tree.forest node).shortcut := by
    by_cases same : node = parent
    · rw [same, attach_parent _ _ _ joins.different]
    · rw [attach_other _ _ _ _ elsewhere same]
  refine ⟨shortcuts.attach child parent apart childTop, ?_⟩
  constructor
  case link =>
    intro node here
    rw [shortcuts.attach_link]
    by_cases same : node = child
    · rw [same, Function.update_self, attach_child _ _ _ joins.different]
    · rw [Function.update_of_ne same, shortcut node same]
      exact shortens.link node here
  case stays =>
    intro node here
    by_cases same : node = child
    · rw [same, attach_child _ _ _ joins.different]
      exact joins.parentHere
    · rw [shortcut node same]
      exact shortens.stays node here
  case outside =>
    intro node absent
    have elsewhere : node ≠ child := fun same => absent (same ▸ joins.childHere)
    rw [shortcuts.attach_link, Function.update_of_ne elsewhere]
    exact shortens.outside node absent
  case roots =>
    intro node
    rw [shortcuts.attach_root, joins.root, shortens.roots, parentRoot]

theorem Joins.link_joined (joins : Joins image done parents child parent first second)
    (grown : Grown image done pairs tree parents) (node : Nat) (joined : node ∈ tree.joins) :
    joins.joined.link node = parents.link node := by
  have elsewhere : node ≠ child := by
    intro same
    rw [same] at joined
    exact ((grown.joined child).mp joined).2 joins.childTop
  rw [joins.link, Function.update_of_ne elsewhere]

theorem Grown.attach (grown : Grown image done pairs tree parents)
    (joins : Joins image done parents child parent first second) :
    Grown image done (addPair pairs first second)
      { attach child parent tree with joins := tree.joins ++ [child] } joins.joined := by
  have childLink : joins.joined.link child = parent := by
    rw [joins.link, Function.update_self]
  have sameLink (node : Nat) (elsewhere : node ≠ child) :
      joins.joined.link node = parents.link node := by
    rw [joins.link, Function.update_of_ne elsewhere]
  constructor
  case distinct => exact grown.distinct
  case inside => exact grown.inside
  case link =>
    intro node here
    dsimp only
    by_cases same : node = child
    · rw [same, attach_child _ _ _ joins.different, childLink]
    · rw [sameLink node same]
      by_cases isParent : node = parent
      · rw [isParent, attach_parent _ _ _ joins.different]
        exact grown.link parent joins.parentHere
      · rw [attach_other _ _ _ _ same isParent]
        exact grown.link node here
  case void =>
    intro node absent
    dsimp only
    have notChild : node ≠ child := fun same => absent (same ▸ joins.childHere)
    have notParent : node ≠ parent := fun same => absent (same ▸ joins.parentHere)
    rw [attach_other _ _ _ _ notChild notParent, sameLink node notChild]
    exact grown.void node absent
  case stays =>
    intro node here
    by_cases same : node = child
    · rw [same, childLink]
      exact joins.parentHere
    · rw [sameLink node same]
      exact grown.stays node here
  case shortens =>
    obtain ⟨shortcuts, shortens⟩ := grown.shortens
    exact joins.shortens shortens
  case represents =>
    apply grown.represents.joined
    rw [parents.root_self parent joins.parentTop]
    exact joins.ends
  case area =>
    intro node here top
    dsimp only
    have notChild : node ≠ child := by
      intro same
      rw [same, childLink] at top
      exact joins.different top.symm
    rw [sameLink node notChild] at top
    by_cases isParent : node = parent
    · rw [isParent, attach_parent _ _ _ joins.different, (joins.members done).length_eq,
        List.length_append]
      dsimp only
      rw [grown.area child joins.childHere joins.childTop,
        grown.area parent joins.parentHere joins.parentTop, Nat.add_comm]
    · rw [attach_other _ _ _ _ notChild isParent, joins.members_other done node notChild isParent]
      exact grown.area node here top
  case rises =>
    intro node here
    by_cases same : node = child
    · rw [same, childLink]
      exact joins.rises
    · rw [sameLink node same]
      exact grown.rises node here
  case joinsDistinct =>
    refine List.Nodup.append grown.joinsDistinct (List.nodup_singleton child) ?_
    intro node earlier last
    rw [List.mem_singleton.mp last] at earlier
    exact ((grown.joined child).mp earlier).2 joins.childTop
  case joinsOrdered =>
    rw [List.pairwise_append]
    refine ⟨?_, List.pairwise_singleton _ _, ?_⟩
    · apply grown.joinsOrdered.imp_of_mem
      intro earlier later _earlierJoined laterJoined apart
      rw [joins.link_joined grown later laterJoined]
      exact apart
    · intro earlier joined last isChild
      rw [List.mem_singleton.mp isChild, childLink]
      intro same
      rw [← same] at joined
      exact ((grown.joined parent).mp joined).2 joins.parentTop
  case joined =>
    intro node
    rw [List.mem_append, List.mem_singleton, grown.joined]
    by_cases same : node = child
    · rw [same, childLink]
      exact iff_of_true (Or.inr rfl) ⟨joins.childHere, joins.different.symm⟩
    · rw [sameLink node same]
      exact or_iff_left same

end

end BlackboxProfiling.SdVbs.Mser
