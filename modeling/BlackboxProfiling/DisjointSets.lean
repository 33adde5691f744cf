import Mathlib.Data.List.Nodup
import Mathlib.Data.List.Perm.Subperm
import Mathlib.Logic.Function.Basic
import Mathlib.Logic.Relation

/-!
Disjoint sets as a forest of links. A node that links to itself is a root; every
other link descends, so following links ends at the root that names the set.
-/

namespace DisjointSets

variable {α : Type} [DecidableEq α]

structure Forest (α : Type) where
  link : α → α
  depth : α → Nat
  descends : ∀ node, link node ≠ node → depth (link node) < depth node

def Forest.root (forest : Forest α) (node : α) : α :=
  if _rooted : forest.link node = node then node else forest.root (forest.link node)
termination_by forest.depth node
decreasing_by exact forest.descends node _rooted

def Forest.path (forest : Forest α) (node : α) : List α :=
  if _rooted : forest.link node = node then [] else node :: forest.path (forest.link node)
termination_by forest.depth node
decreasing_by exact forest.descends node _rooted

theorem Forest.root_self (forest : Forest α) (node : α) (rooted : forest.link node = node) :
    forest.root node = node := by
  rw [root, dif_pos rooted]

theorem Forest.root_step (forest : Forest α) (node : α) (passed : forest.link node ≠ node) :
    forest.root node = forest.root (forest.link node) := by
  rw [root, dif_neg passed]

@[simp] theorem Forest.root_link (forest : Forest α) (node : α) :
    forest.root (forest.link node) = forest.root node := by
  by_cases rooted : forest.link node = node
  · rw [rooted]
  · rw [forest.root_step node rooted]

theorem Forest.path_self (forest : Forest α) (node : α) (rooted : forest.link node = node) :
    forest.path node = [] := by
  rw [path, dif_pos rooted]

theorem Forest.path_step (forest : Forest α) (node : α) (passed : forest.link node ≠ node) :
    forest.path node = node :: forest.path (forest.link node) := by
  rw [path, dif_neg passed]

theorem Forest.link_induction (forest : Forest α) {holds : α → Prop}
    (rooted : ∀ node, forest.link node = node → holds node)
    (step : ∀ node, forest.link node ≠ node → holds (forest.link node) → holds node)
    (node : α) : holds node := by
  induction node using Forest.root.induct forest with
  | case1 node isRoot => exact rooted node isRoot
  | case2 node passed ih => exact step node passed ih

theorem Forest.link_root (forest : Forest α) (node : α) :
    forest.link (forest.root node) = forest.root node := by
  induction node using forest.link_induction with
  | rooted node rooted => rw [forest.root_self node rooted, rooted]
  | step node passed ih =>
      rw [forest.root_step node passed]
      exact ih

@[simp] theorem Forest.root_root (forest : Forest α) (node : α) :
    forest.root (forest.root node) = forest.root node :=
  forest.root_self _ (forest.link_root node)

theorem Forest.root_eq_self_iff (forest : Forest α) (node : α) :
    forest.root node = node ↔ forest.link node = node := by
  constructor
  · intro same
    have rooted := forest.link_root node
    rw [same] at rooted
    exact rooted
  · intro rooted
    exact forest.root_self node rooted

theorem Forest.depth_root (forest : Forest α) (node : α) :
    forest.depth (forest.root node) ≤ forest.depth node := by
  induction node using forest.link_induction with
  | rooted node rooted => exact Nat.le_of_eq (by rw [forest.root_self node rooted])
  | step node passed ih =>
      rw [forest.root_step node passed]
      exact Nat.le_trans ih (Nat.le_of_lt (forest.descends node passed))

theorem Forest.depth_root_lt (forest : Forest α) (node : α) (passed : forest.link node ≠ node) :
    forest.depth (forest.root node) < forest.depth node := by
  rw [forest.root_step node passed]
  exact Nat.lt_of_le_of_lt (forest.depth_root _) (forest.descends node passed)

theorem Forest.path_member (forest : Forest α) (node other : α) (member : other ∈ forest.path node) :
    forest.link other ≠ other ∧ forest.root other = forest.root node ∧
      forest.depth other ≤ forest.depth node := by
  induction node using forest.link_induction with
  | rooted node rooted =>
      rw [forest.path_self node rooted] at member
      cases member
  | step node passed ih =>
      rw [forest.path_step node passed] at member
      rcases List.mem_cons.mp member with same | later
      · subst same
        exact ⟨passed, rfl, Nat.le_refl _⟩
      · obtain ⟨otherPassed, sameRoot, shallower⟩ := ih later
        refine ⟨otherPassed, ?_, ?_⟩
        · rw [sameRoot, forest.root_link]
        · exact Nat.le_trans shallower (Nat.le_of_lt (forest.descends node passed))

private theorem Forest.path_nodup (forest : Forest α) (node : α) : (forest.path node).Nodup := by
  induction node using forest.link_induction with
  | rooted node rooted =>
      rw [forest.path_self node rooted]
      exact List.nodup_nil
  | step node passed ih =>
      rw [forest.path_step node passed, List.nodup_cons]
      refine ⟨?_, ih⟩
      intro again
      have shallower := (forest.path_member (forest.link node) node again).2.2
      have deeper := forest.descends node passed
      omega

theorem Forest.path_inside (forest : Forest α) (inside : α → Prop)
    (closed : ∀ node, inside node → inside (forest.link node)) (node : α) (here : inside node) :
    (∀ other ∈ forest.path node, inside other) ∧ inside (forest.root node) := by
  induction node using forest.link_induction with
  | rooted node rooted =>
      rw [forest.path_self node rooted, forest.root_self node rooted]
      refine ⟨?_, here⟩
      intro other absent
      cases absent
  | step node passed ih =>
      obtain ⟨later, atRoot⟩ := ih (closed node here)
      rw [forest.path_step node passed, forest.root_step node passed]
      refine ⟨?_, atRoot⟩
      intro other member
      rcases List.mem_cons.mp member with same | further
      · rw [same]
        exact here
      · exact later other further

theorem Forest.path_length_lt (forest : Forest α) (nodes : List α)
    (closed : ∀ node ∈ nodes, forest.link node ∈ nodes) (node : α) (member : node ∈ nodes) :
    (forest.path node).length < nodes.length := by
  obtain ⟨inside, rootInside⟩ := forest.path_inside (fun other => other ∈ nodes) closed node member
  have distinct : (forest.root node :: forest.path node).Nodup := by
    rw [List.nodup_cons]
    refine ⟨?_, forest.path_nodup node⟩
    intro onPath
    exact (forest.path_member node _ onPath).1 (forest.link_root node)
  have within : (forest.root node :: forest.path node) ⊆ nodes := by
    intro other present
    rcases List.mem_cons.mp present with same | onPath
    · rw [same]
      exact rootInside
    · exact inside other onPath
  exact (List.subperm_of_subset distinct within).length_le

inductive Forest.Below (forest : Forest α) : α → α → Prop
  | here (node : α) : Below forest node node
  | up (node top : α) : Below forest (forest.link node) top → Below forest node top

omit [DecidableEq α] in
theorem Forest.Below.trans {forest : Forest α} {node middle top : α}
    (first : forest.Below node middle) (second : forest.Below middle top) :
    forest.Below node top := by
  induction first with
  | here node => exact second
  | up node middle _first ih => exact Forest.Below.up _ _ (ih second)

omit [DecidableEq α] in
theorem Forest.Below.link (forest : Forest α) (node : α) : forest.Below node (forest.link node) :=
  Forest.Below.up _ _ (Forest.Below.here _)

theorem Forest.below_root (forest : Forest α) (node : α) : forest.Below node (forest.root node) := by
  induction node using forest.link_induction with
  | rooted node rooted =>
      rw [forest.root_self node rooted]
      exact Forest.Below.here node
  | step node passed ih =>
      rw [forest.root_step node passed]
      exact Forest.Below.up _ _ ih

omit [DecidableEq α] in
theorem Forest.Below.kept {forest : Forest α} (holds : α → Prop)
    (closed : ∀ node, holds node → holds (forest.link node)) {node top : α}
    (below : forest.Below node top) (start : holds node) : holds top := by
  induction below with
  | here node => exact start
  | up node top _below ih => exact ih (closed node start)

omit [DecidableEq α] in
/-- If links lead to no earlier node of a list, ways up lead to none. -/
theorem Forest.pairwise_not_below (forest : Forest α) (nodes : List α) (distinct : nodes.Nodup)
    (closed : ∀ node ∈ nodes, forest.link node ∈ nodes)
    (ordered : nodes.Pairwise (fun earlier later => forest.link later ≠ earlier)) :
    nodes.Pairwise (fun earlier later => ¬ forest.Below later earlier) := by
  rw [List.pairwise_iff_getElem] at ordered ⊢
  intro i j iInside jInside before below
  have notEarlier := below.kept
    (fun node => ∃ k, ∃ inside : k < nodes.length, j ≤ k ∧ nodes[k] = node)
    (by
      intro node place
      obtain ⟨k, inside, behind, rfl⟩ := place
      obtain ⟨next, nextInside, same⟩ := List.mem_iff_getElem.mp (closed _ (List.getElem_mem inside))
      refine ⟨next, nextInside, ?_, same⟩
      by_contra earlier
      exact ordered next k nextInside inside (by omega) same.symm)
    ⟨j, jInside, Nat.le_refl j, rfl⟩
  obtain ⟨k, inside, behind, same⟩ := notEarlier
  have place := (List.Nodup.getElem_inj_iff distinct).mp same
  omega

def Forest.first (forest : Forest α) (wanted : α → Bool) (node : α) : α :=
  if wanted node then node
  else if _rooted : forest.link node = node then node
  else forest.first wanted (forest.link node)
termination_by forest.depth node
decreasing_by exact forest.descends node _rooted

theorem Forest.first_wanted (forest : Forest α) (wanted : α → Bool) (node : α)
    (here : wanted node = true) : forest.first wanted node = node := by
  rw [first, if_pos here]

theorem Forest.first_self (forest : Forest α) (wanted : α → Bool) (node : α)
    (rooted : forest.link node = node) : forest.first wanted node = node := by
  rw [first, dif_pos rooted, ite_self]

theorem Forest.first_step (forest : Forest α) (wanted : α → Bool) (node : α)
    (unwanted : wanted node = false) :
    forest.first wanted node = forest.first wanted (forest.link node) := by
  by_cases rooted : forest.link node = node
  · rw [rooted]
  · rw [first, unwanted, if_neg Bool.false_ne_true, dif_neg rooted]

theorem Forest.first_congr (forest : Forest α) (wanted other : α → Bool) (node : α)
    (same : ∀ top, forest.Below node top → wanted top = other top) :
    forest.first wanted node = forest.first other node := by
  induction node using forest.link_induction with
  | rooted node rooted => rw [forest.first_self _ node rooted, forest.first_self _ node rooted]
  | step node _passed ih =>
      have here := same node (Forest.Below.here node)
      cases isWanted : wanted node with
      | true =>
          rw [forest.first_wanted _ node isWanted, forest.first_wanted _ node (here ▸ isWanted)]
      | false =>
          rw [forest.first_step _ node isWanted, forest.first_step _ node (here ▸ isWanted)]
          exact ih (fun top below => same top (Forest.Below.up _ _ below))

theorem Forest.below_first (forest : Forest α) (wanted : α → Bool) (node : α) :
    forest.Below node (forest.first wanted node) := by
  induction node using forest.link_induction with
  | rooted node rooted =>
      rw [forest.first_self _ node rooted]
      exact Forest.Below.here node
  | step node _passed ih =>
      cases isWanted : wanted node with
      | true =>
          rw [forest.first_wanted _ node isWanted]
          exact Forest.Below.here node
      | false =>
          rw [forest.first_step _ node isWanted]
          exact Forest.Below.up _ _ ih

theorem Forest.first_below (forest : Forest α) (wanted : α → Bool) (node top : α)
    (isWanted : wanted top = true) (below : forest.Below node top) :
    forest.Below (forest.first wanted node) top := by
  induction below with
  | here top =>
      rw [forest.first_wanted _ top isWanted]
      exact Forest.Below.here top
  | up node top below ih =>
      cases here : wanted node with
      | true =>
          rw [forest.first_wanted _ node here]
          exact Forest.Below.up _ _ below
      | false =>
          rw [forest.first_step _ node here]
          exact ih isWanted

/-! ### Putting one set below another -/

def Forest.attach (forest : Forest α) (child parent : α)
    (different : forest.root parent ≠ child) (rooted : forest.link child = child) : Forest α where
  link := Function.update forest.link child parent
  depth node :=
    if forest.root node = child then forest.depth node + forest.depth parent + 1
    else forest.depth node
  descends := by
    intro node passed
    by_cases here : node = child
    · subst node
      rw [Function.update_self, if_neg different, forest.root_self child rooted, if_pos rfl]
      omega
    · rw [Function.update_of_ne here] at passed ⊢
      have deeper := forest.descends node passed
      rw [forest.root_link]
      split <;> omega

theorem Forest.attach_link (forest : Forest α) (child parent : α)
    (different : forest.root parent ≠ child) (rooted : forest.link child = child) :
    (forest.attach child parent different rooted).link =
      Function.update forest.link child parent := rfl

theorem Forest.attach_root (forest : Forest α) (child parent : α)
    (different : forest.root parent ≠ child) (rooted : forest.link child = child) (node : α) :
    (forest.attach child parent different rooted).root node =
      if forest.root node = child then forest.root parent else forest.root node := by
  have others (other : α) (elsewhere : forest.root other ≠ child) :
      (forest.attach child parent different rooted).root other = forest.root other := by
    induction other using forest.link_induction with
    | rooted other isRoot =>
        rw [forest.root_self other isRoot] at elsewhere
        rw [forest.root_self other isRoot]
        apply root_self
        rw [attach_link, Function.update_of_ne elsewhere, isRoot]
    | step other passed ih =>
        have notChild : other ≠ child := by
          intro same
          rw [same] at passed
          exact passed rooted
        have sameLink : (forest.attach child parent different rooted).link other =
            forest.link other := by
          rw [attach_link, Function.update_of_ne notChild]
        rw [root_step _ other (by rw [sameLink]; exact passed), sameLink, ih, forest.root_link]
        rw [forest.root_link]
        exact elsewhere
  have atChild : (forest.attach child parent different rooted).root child = forest.root parent := by
    have sameLink : (forest.attach child parent different rooted).link child = parent := by
      rw [attach_link, Function.update_self]
    have moved : parent ≠ child := by
      intro same
      rw [same, forest.root_self child rooted] at different
      exact different rfl
    rw [root_step _ child (by rw [sameLink]; exact moved), sameLink]
    exact others parent different
  induction node using forest.link_induction with
  | rooted node isRoot =>
      by_cases here : node = child
      · rw [here, atChild, forest.root_self child rooted, if_pos rfl]
      · rw [forest.root_self node isRoot, if_neg here]
        apply root_self
        rw [attach_link, Function.update_of_ne here, isRoot]
  | step node passed ih =>
      have notChild : node ≠ child := by
        intro same
        rw [same] at passed
        exact passed rooted
      have sameLink : (forest.attach child parent different rooted).link node = forest.link node := by
        rw [attach_link, Function.update_of_ne notChild]
      rw [root_step _ node (by rw [sameLink]; exact passed), sameLink, ih, forest.root_link]

def Forest.shorten (forest : Forest α) (short : α) : Forest α where
  link := Function.update forest.link short (forest.root short)
  depth := forest.depth
  descends := by
    intro node passed
    by_cases here : node = short
    · subst node
      rw [Function.update_self] at passed ⊢
      apply forest.depth_root_lt
      intro rooted
      exact passed (forest.root_self short rooted)
    · rw [Function.update_of_ne here] at passed ⊢
      exact forest.descends node passed

theorem Forest.shorten_link (forest : Forest α) (short : α) :
    (forest.shorten short).link = Function.update forest.link short (forest.root short) := rfl

@[simp] theorem Forest.shorten_root (forest : Forest α) (short node : α) :
    (forest.shorten short).root node = forest.root node := by
  induction node using (forest.shorten short).link_induction with
  | rooted node isRoot =>
      rw [root_self _ node isRoot]
      rw [shorten_link] at isRoot
      by_cases here : node = short
      · rw [here, Function.update_self] at isRoot
        rw [here]
        exact isRoot.symm
      · rw [Function.update_of_ne here] at isRoot
        exact (forest.root_self node isRoot).symm
  | step node passed ih =>
      rw [root_step _ node passed, ih, shorten_link]
      by_cases here : node = short
      · rw [here, Function.update_self, forest.root_root]
      · rw [Function.update_of_ne here, forest.root_link]

/-! ### The relation the sets stand for -/

/-- Two nodes are in one set exactly when pairs of the relation lead from one to the other. -/
def Forest.Represents (forest : Forest α) (pairs : α → α → Prop) : Prop :=
  ∀ left right, forest.root left = forest.root right ↔ Relation.EqvGen pairs left right

def Forest.separate (α : Type) : Forest α where
  link := id
  depth _node := 0
  descends _node passed := absurd rfl passed

theorem Forest.separate_represents (pairs : α → α → Prop)
    (none : ∀ left right, ¬ pairs left right) : (separate α).Represents pairs := by
  intro left right
  rw [root_self _ left rfl, root_self _ right rfl]
  constructor
  · intro same
    rw [same]
    exact Relation.EqvGen.refl right
  · intro linked
    induction linked with
    | rel left right pair => exact absurd pair (none left right)
    | refl node => rfl
    | symm left right _linked ih => exact ih.symm
    | trans left middle right _one _two ihOne ihTwo => exact ihOne.trans ihTwo

def addPair (pairs : α → α → Prop) (first second : α) (left right : α) : Prop :=
  pairs left right ∨ (left = first ∧ right = second)

theorem Forest.Represents.known {forest : Forest α} {pairs : α → α → Prop}
    (represents : forest.Represents pairs) (first second : α)
    (same : forest.root first = forest.root second) :
    forest.Represents (addPair pairs first second) := by
  intro left right
  rw [represents]
  constructor
  · intro linked
    exact linked.mono (fun _left _right pair => Or.inl pair)
  · intro linked
    induction linked with
    | rel left right pair =>
        rcases pair with earlier | added
        · exact Relation.EqvGen.rel _ _ earlier
        · rw [added.1, added.2]
          exact (represents first second).mp same
    | refl node => exact Relation.EqvGen.refl node
    | symm left right _linked ih => exact Relation.EqvGen.symm _ _ ih
    | trans left middle right _one _two ihOne ihTwo =>
        exact Relation.EqvGen.trans _ _ _ ihOne ihTwo

/-- Attaching the root of one end of a pair below the set of the other end adds the pair. -/
theorem Forest.Represents.joined {forest : Forest α} {pairs : α → α → Prop}
    (represents : forest.Represents pairs) (first second child parent : α)
    (different : forest.root parent ≠ child) (rooted : forest.link child = child)
    (ends : (forest.root first = child ∧ forest.root second = forest.root parent) ∨
      (forest.root second = child ∧ forest.root first = forest.root parent)) :
    (forest.attach child parent different rooted).Represents (addPair pairs first second) := by
  have earlier (left right : α) (same : forest.root left = forest.root right) :
      Relation.EqvGen (addPair pairs first second) left right :=
    ((represents left right).mp same).mono (fun _left _right pair => Or.inl pair)
  have added : Relation.EqvGen (addPair pairs first second) first second :=
    Relation.EqvGen.rel _ _ (Or.inr ⟨rfl, rfl⟩)
  -- the set below and the set above, each by one end of the pair
  have across (low high : α) (atLow : forest.root low = child)
      (atHigh : forest.root high = forest.root parent) :
      Relation.EqvGen (addPair pairs first second) low high := by
    rcases ends with ⟨firstLow, secondHigh⟩ | ⟨secondLow, firstHigh⟩
    · exact Relation.EqvGen.trans _ _ _ (earlier low first (atLow.trans firstLow.symm))
        (Relation.EqvGen.trans _ _ _ added (earlier second high (secondHigh.trans atHigh.symm)))
    · exact Relation.EqvGen.trans _ _ _ (earlier low second (atLow.trans secondLow.symm))
        (Relation.EqvGen.trans _ _ _ (Relation.EqvGen.symm _ _ added)
          (earlier first high (firstHigh.trans atHigh.symm)))
  intro left right
  rw [attach_root, attach_root]
  constructor
  · intro same
    split at same
    · rename_i leftLow
      split at same
      · rename_i rightLow
        exact earlier left right (leftLow.trans rightLow.symm)
      · exact across left right leftLow same.symm
    · split at same
      · rename_i rightLow
        exact Relation.EqvGen.symm _ _ (across right left rightLow same)
      · exact earlier left right same
  · intro linked
    induction linked with
    | rel left right pair =>
        rcases pair with known | ⟨leftFirst, rightSecond⟩
        · rw [(represents left right).mpr (Relation.EqvGen.rel _ _ known)]
        · rw [leftFirst, rightSecond]
          rcases ends with ⟨firstLow, secondHigh⟩ | ⟨secondLow, firstHigh⟩
          · rw [if_pos firstLow, secondHigh, if_neg different]
          · rw [if_pos secondLow, firstHigh, if_neg different]
    | refl node => rfl
    | symm left right _linked ih => exact ih.symm
    | trans left middle right _one _two ihOne ihTwo => exact ihOne.trans ihTwo

theorem Forest.Represents.of_sameRoots {forest other : Forest α} {pairs : α → α → Prop}
    (represents : forest.Represents pairs) (same : ∀ node, other.root node = forest.root node) :
    other.Represents pairs := by
  intro left right
  rw [same, same]
  exact represents left right

theorem Forest.Represents.of_generates {forest : Forest α} {pairs generated : α → α → Prop}
    (represents : forest.Represents pairs)
    (kept : ∀ left right, pairs left right → Relation.EqvGen generated left right)
    (nothingNew : ∀ left right, generated left right → Relation.EqvGen pairs left right) :
    forest.Represents generated := by
  have closed (one other : α → α → Prop)
      (step : ∀ left right, one left right → Relation.EqvGen other left right) (left right : α)
      (linked : Relation.EqvGen one left right) : Relation.EqvGen other left right := by
    induction linked with
    | rel left right pair => exact step left right pair
    | refl node => exact Relation.EqvGen.refl node
    | symm left right _linked ih => exact Relation.EqvGen.symm _ _ ih
    | trans left middle right _one _two ihOne ihTwo => exact Relation.EqvGen.trans _ _ _ ihOne ihTwo
  intro left right
  rw [represents]
  exact ⟨closed pairs generated kept left right, closed generated pairs nothingNew left right⟩

omit [DecidableEq α] in
theorem generated_iff {pairs : α → α → Prop} (holds : α → Prop)
    (kept : ∀ left right, pairs left right → (holds left ↔ holds right)) (left right : α)
    (linked : Relation.EqvGen pairs left right) : holds left ↔ holds right := by
  induction linked with
  | rel left right pair => exact kept left right pair
  | refl node => exact Iff.rfl
  | symm left right _linked ih => exact ih.symm
  | trans left middle right _one _two ihOne ihTwo => exact ihOne.trans ihTwo

/-- A set that the edges do not leave and whose pairs are edges is what the edges
connect to any of its nodes. -/
theorem Forest.Represents.connected {forest : Forest α} {pairs edges : α → α → Prop}
    (represents : forest.Represents pairs) (node : α)
    (within : ∀ left right, forest.root left = forest.root node → pairs left right →
      edges left right)
    (closed : ∀ left right, edges left right →
      (forest.root left = forest.root node ↔ forest.root right = forest.root node)) (other : α) :
    forest.root other = forest.root node ↔ Relation.EqvGen edges node other := by
  constructor
  · intro same
    have sameRoots (left right : α) (linked : Relation.EqvGen pairs left right) :
        forest.root left = forest.root right := (represents left right).mpr linked
    have inside (left right : α) (linked : Relation.EqvGen pairs left right)
        (here : forest.root left = forest.root node) : Relation.EqvGen edges left right := by
      induction linked with
      | rel left right pair => exact Relation.EqvGen.rel _ _ (within left right here pair)
      | refl left => exact Relation.EqvGen.refl left
      | symm left right linked ih =>
          exact Relation.EqvGen.symm _ _ (ih ((sameRoots left right linked).trans here))
      | trans left middle right one _two ihOne ihTwo =>
          exact Relation.EqvGen.trans _ _ _ (ihOne here)
            (ihTwo ((sameRoots left middle one).symm.trans here))
    exact inside node other ((represents node other).mp same.symm) rfl
  · intro linked
    exact (generated_iff (fun left => forest.root left = forest.root node) closed node other
      linked).mp rfl

def Forest.members (forest : Forest α) (nodes : List α) (top : α) : List α :=
  nodes.filter (fun node => decide (forest.root node = top))

theorem Forest.mem_members (forest : Forest α) (nodes : List α) (top node : α) :
    node ∈ forest.members nodes top ↔ node ∈ nodes ∧ forest.root node = top := by
  rw [members, List.mem_filter, decide_eq_true_eq]

theorem Forest.members_congr (forest other : Forest α) (nodes : List α) (top : α)
    (same : ∀ node, other.root node = forest.root node) :
    other.members nodes top = forest.members nodes top := by
  unfold members
  simp only [same]

theorem Forest.members_append (forest : Forest α) (nodes more : List α) (top : α) :
    forest.members (nodes ++ more) top = forest.members nodes top ++ forest.members more top :=
  List.filter_append nodes more

omit [DecidableEq α] in
private theorem filter_either (nodes : List α) (one other : α → Bool)
    (disjoint : ∀ node, one node = true → other node = false) :
    (nodes.filter (fun node => one node || other node)).Perm
      (nodes.filter one ++ nodes.filter other) := by
  induction nodes with
  | nil => exact List.Perm.refl []
  | cons node rest ih =>
      cases here : one node with
      | true =>
          rw [List.filter_cons_of_pos (by rw [here, Bool.true_or]), List.filter_cons_of_pos here,
            List.filter_cons_of_neg (by rw [disjoint node here]; exact Bool.false_ne_true)]
          exact ih.cons node
      | false =>
          rw [List.filter_cons_of_neg (p := one) (by rw [here]; exact Bool.false_ne_true)]
          cases there : other node with
          | true =>
              rw [List.filter_cons_of_pos (by rw [there, Bool.or_true]),
                List.filter_cons_of_pos there]
              exact (ih.cons node).trans List.perm_middle.symm
          | false =>
              rw [List.filter_cons_of_neg
                  (by rw [here, there, Bool.or_false]; exact Bool.false_ne_true),
                List.filter_cons_of_neg (by rw [there]; exact Bool.false_ne_true)]
              exact ih

theorem Forest.attach_members (forest : Forest α) (child parent : α)
    (different : forest.root parent ≠ child) (rooted : forest.link child = child)
    (nodes : List α) :
    ((forest.attach child parent different rooted).members nodes (forest.root parent)).Perm
      (forest.members nodes child ++ forest.members nodes (forest.root parent)) := by
  have either : (forest.attach child parent different rooted).members nodes (forest.root parent) =
      nodes.filter (fun node => decide (forest.root node = child) ||
        decide (forest.root node = forest.root parent)) := by
    apply List.filter_congr
    intro node _member
    rw [attach_root, Bool.eq_iff_iff, Bool.or_eq_true, decide_eq_true_eq, decide_eq_true_eq,
      decide_eq_true_eq]
    split
    · rename_i low
      exact iff_of_true rfl (Or.inl low)
    · rename_i elsewhere
      exact (or_iff_right elsewhere).symm
  rw [either]
  apply filter_either
  intro node low
  rw [decide_eq_true_eq] at low
  rw [low]
  exact decide_eq_false different.symm

theorem Forest.attach_members_other (forest : Forest α) (child parent : α)
    (different : forest.root parent ≠ child) (rooted : forest.link child = child)
    (nodes : List α) (top : α) (notChild : top ≠ child) (notParent : top ≠ forest.root parent) :
    (forest.attach child parent different rooted).members nodes top = forest.members nodes top := by
  apply List.filter_congr
  intro node _member
  rw [attach_root, Bool.eq_iff_iff, decide_eq_true_eq, decide_eq_true_eq]
  split
  · rename_i low
    rw [low]
    exact iff_of_false notParent.symm notChild.symm
  · exact Iff.rfl

end DisjointSets
