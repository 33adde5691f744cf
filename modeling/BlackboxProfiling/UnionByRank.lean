import BlackboxProfiling.DisjointSets
import Mathlib.Algebra.Group.Nat.Defs
import Mathlib.Data.Nat.Log

/-!
Disjoint sets joined by rank: the root of the lower rank goes below the other one. Ranks
rise along links and a root's set is no smaller than two to its rank, so no way to a root
is longer than the logarithm of the number of nodes.
-/

namespace DisjointSets

variable {α : Type} [DecidableEq α]

structure Ranked (forest : Forest α) (rank size : α → Nat) (nodes : List α) : Prop where
  closed : ∀ node ∈ nodes, forest.link node ∈ nodes
  rises : ∀ node ∈ nodes, forest.link node ≠ node → rank node < rank (forest.link node)
  heavy : ∀ node ∈ nodes, forest.link node = node → 2 ^ rank node ≤ size node
  size : ∀ node ∈ nodes, forest.link node = node → size node = (forest.members nodes node).length

def Forest.roots (forest : Forest α) (nodes : List α) : List α :=
  nodes.filter (fun node => decide (forest.link node = node))

theorem Forest.mem_roots (forest : Forest α) (nodes : List α) (node : α) :
    node ∈ forest.roots nodes ↔ node ∈ nodes ∧ forest.link node = node := by
  rw [roots, List.mem_filter, decide_eq_true_eq]

def joinRank (rank : α → Nat) (child parent : α) : α → Nat :=
  if rank child = rank parent then Function.update rank parent (rank parent + 1) else rank

def joinSize (size : α → Nat) (child parent : α) : α → Nat :=
  Function.update size parent (size parent + size child)

theorem le_joinRank (rank : α → Nat) (child parent node : α) :
    rank node ≤ joinRank rank child parent node := by
  unfold joinRank
  split
  · by_cases here : node = parent
    · rw [here, Function.update_self]
      exact Nat.le_succ _
    · rw [Function.update_of_ne here]
  · exact Nat.le_refl _

theorem joinRank_other (rank : α → Nat) (child parent node : α) (other : node ≠ parent) :
    joinRank rank child parent node = rank node := by
  unfold joinRank
  split
  · exact Function.update_of_ne other _ _
  · rfl

theorem lt_joinRank (rank : α → Nat) (child parent : α) (low : rank child ≤ rank parent) :
    rank child < joinRank rank child parent parent := by
  unfold joinRank
  split
  · rw [Function.update_self]
    exact Nat.lt_succ_of_le low
  · rename_i unequal
    exact Nat.lt_of_le_of_ne low unequal

theorem joinRank_heavy (rank size : α → Nat) (child parent : α)
    (heavy : 2 ^ rank parent ≤ size parent) (childHeavy : 2 ^ rank child ≤ size child) :
    2 ^ joinRank rank child parent parent ≤ joinSize size child parent parent := by
  rw [joinSize, Function.update_self]
  unfold joinRank
  split
  · rename_i equal
    rw [Function.update_self, Nat.pow_succ, Nat.mul_two]
    rw [equal] at childHeavy
    exact Nat.add_le_add heavy childHeavy
  · exact Nat.le_trans heavy (Nat.le_add_right _ _)

section

variable {forest : Forest α} {rank size : α → Nat} {nodes : List α}

theorem Ranked.root_mem (ranked : Ranked forest rank size nodes) (node : α) (member : node ∈ nodes) :
    forest.root node ∈ nodes :=
  (forest.path_inside (fun other => other ∈ nodes) ranked.closed node member).2

private theorem Ranked.path_le (ranked : Ranked forest rank size nodes) (node : α)
    (member : node ∈ nodes) :
    rank node + (forest.path node).length ≤ rank (forest.root node) := by
  induction node using forest.link_induction with
  | rooted node rooted =>
      rw [forest.path_self node rooted, forest.root_self node rooted, List.length_nil]
      exact Nat.le_refl _
  | step node passed ih =>
      have later := ih (ranked.closed node member)
      have rises := ranked.rises node member passed
      rw [forest.path_step node passed, forest.root_step node passed, List.length_cons]
      omega

/-- The bound on the way to a root that joining by rank is for. -/
theorem Ranked.path_log (ranked : Ranked forest rank size nodes) (node : α) (member : node ∈ nodes) :
    (forest.path node).length ≤ Nat.log 2 nodes.length := by
  have rootMember := ranked.root_mem node member
  have isRoot := forest.link_root node
  have long := ranked.path_le node member
  have heavy := ranked.heavy _ rootMember isRoot
  have few : (forest.members nodes (forest.root node)).length ≤ nodes.length :=
    List.length_filter_le _ _
  rw [ranked.size _ rootMember isRoot] at heavy
  have power : 2 ^ (forest.path node).length ≤ nodes.length :=
    Nat.le_trans (Nat.pow_le_pow_right (by decide) (by omega)) (Nat.le_trans heavy few)
  exact Nat.le_log_of_pow_le (by decide) power

theorem Ranked.separate (nodes : List α) (distinct : nodes.Nodup) :
    Ranked (Forest.separate α) (fun _node => 0) (fun _node => 1) nodes where
  closed _node member := member
  rises _node _member passed := absurd rfl passed
  heavy _node _member _rooted := Nat.le_refl 1
  size node member _rooted := by
    have only : (Forest.separate α).members nodes node = nodes.filter (fun other => other == node) := by
      apply List.filter_congr
      intro other _listed
      rw [Forest.root_self _ other rfl, beq_eq_decide]
    rw [only, ← List.countP_eq_length_filter, ← List.count]
    exact (List.count_eq_one_of_mem distinct member).symm

theorem Ranked.shorten (ranked : Ranked forest rank size nodes) (short : α) (member : short ∈ nodes) :
    Ranked (forest.shorten short) rank size nodes := by
  have sameRoot (node : α) (rooted : (forest.shorten short).link node = node) :
      forest.link node = node := by
    rw [← Forest.root_eq_self_iff, ← forest.shorten_root short]
    exact Forest.root_self _ node rooted
  constructor
  case closed =>
    intro node nodeMember
    rw [Forest.shorten_link]
    by_cases here : node = short
    · rw [here, Function.update_self]
      exact ranked.root_mem short member
    · rw [Function.update_of_ne here]
      exact ranked.closed node nodeMember
  case rises =>
    intro node nodeMember passed
    rw [Forest.shorten_link] at passed ⊢
    by_cases here : node = short
    · rw [here, Function.update_self] at passed ⊢
      have notRoot : forest.link short ≠ short := fun rooted => passed (forest.root_self short rooted)
      have long := ranked.path_le short member
      rw [forest.path_step short notRoot, List.length_cons] at long
      omega
    · rw [Function.update_of_ne here] at passed ⊢
      exact ranked.rises node nodeMember passed
  case heavy =>
    intro node nodeMember rooted
    exact ranked.heavy node nodeMember (sameRoot node rooted)
  case size =>
    intro node nodeMember rooted
    rw [forest.members_congr (forest.shorten short) nodes node (forest.shorten_root short)]
    exact ranked.size node nodeMember (sameRoot node rooted)

theorem Ranked.attach (ranked : Ranked forest rank size nodes) (child parent : α)
    (different : forest.root parent ≠ child) (rooted : forest.link child = child)
    (parentRooted : forest.link parent = parent) (member : child ∈ nodes)
    (parentMember : parent ∈ nodes) (low : rank child ≤ rank parent) :
    Ranked (forest.attach child parent different rooted) (joinRank rank child parent)
      (joinSize size child parent) nodes := by
  have apart : parent ≠ child := by
    rw [forest.root_self parent parentRooted] at different
    exact different
  have stays (node : α) (rootedNow : (forest.attach child parent different rooted).link node = node) :
      node ≠ child ∧ forest.link node = node := by
    rw [Forest.attach_link] at rootedNow
    by_cases here : node = child
    · rw [here, Function.update_self] at rootedNow
      exact absurd rootedNow apart
    · rw [Function.update_of_ne here] at rootedNow
      exact ⟨here, rootedNow⟩
  constructor
  case closed =>
    intro node nodeMember
    rw [Forest.attach_link]
    by_cases here : node = child
    · rw [here, Function.update_self]
      exact parentMember
    · rw [Function.update_of_ne here]
      exact ranked.closed node nodeMember
  case rises =>
    intro node nodeMember passed
    rw [Forest.attach_link] at passed ⊢
    by_cases here : node = child
    · rw [here, Function.update_self, joinRank_other rank child parent child apart.symm]
      exact lt_joinRank rank child parent low
    · rw [Function.update_of_ne here] at passed ⊢
      have notParent : node ≠ parent := by
        intro same
        rw [same] at passed
        exact passed parentRooted
      rw [joinRank_other rank child parent node notParent]
      exact Nat.lt_of_lt_of_le (ranked.rises node nodeMember passed)
        (le_joinRank rank child parent _)
  case heavy =>
    intro node nodeMember rootedNow
    obtain ⟨_notChild, before⟩ := stays node rootedNow
    by_cases here : node = parent
    · rw [here]
      exact joinRank_heavy rank size child parent (ranked.heavy parent parentMember parentRooted)
        (ranked.heavy child member rooted)
    · rw [joinRank_other rank child parent node here, joinSize, Function.update_of_ne here]
      exact ranked.heavy node nodeMember before
  case size =>
    intro node nodeMember rootedNow
    obtain ⟨notChild, before⟩ := stays node rootedNow
    by_cases here : node = parent
    · have members := (forest.attach_members child parent different rooted nodes).length_eq
      rw [forest.root_self parent parentRooted, List.length_append] at members
      rw [here, members, joinSize, Function.update_self, ranked.size parent parentMember parentRooted,
        ranked.size child member rooted, Nat.add_comm]
    · rw [joinSize, Function.update_of_ne here, ranked.size node nodeMember before,
        forest.attach_members_other child parent different rooted nodes node notChild (by
          rw [forest.root_self parent parentRooted]
          exact here)]

theorem Forest.shorten_roots (forest : Forest α) (short : α) (nodes : List α) :
    (forest.shorten short).roots nodes = forest.roots nodes := by
  apply List.filter_congr
  intro node _member
  apply decide_eq_decide.mpr
  rw [← Forest.root_eq_self_iff, ← Forest.root_eq_self_iff, forest.shorten_root short]

theorem Forest.attach_roots (forest : Forest α) (child parent : α)
    (different : forest.root parent ≠ child) (rooted : forest.link child = child) (nodes : List α)
    (distinct : nodes.Nodup) (member : child ∈ nodes) :
    ((forest.attach child parent different rooted).roots nodes).length + 1 =
      (forest.roots nodes).length := by
  have isRoot : child ∈ forest.roots nodes := (forest.mem_roots nodes child).mpr ⟨member, rooted⟩
  have apart : parent ≠ child := by
    intro same
    rw [same, forest.root_self child rooted] at different
    exact different rfl
  have fewer : (forest.attach child parent different rooted).roots nodes =
      (forest.roots nodes).erase child := by
    rw [Forest.roots, Forest.roots, (distinct.filter _).erase_eq_filter, List.filter_filter]
    apply List.filter_congr
    intro node _listed
    rw [Forest.attach_link]
    by_cases here : node = child
    · rw [here, Function.update_self]
      simp [apart]
    · rw [Function.update_of_ne here]
      simp [here]
  rw [fewer, List.length_erase_of_mem isRoot]
  have positive := List.length_pos_of_mem isRoot
  omega

end

end DisjointSets
