import BlackboxProfiling.DisjointSets
import Mathlib.Algebra.BigOperators.Group.Finset.Piecewise

/-!
Sums over the trees of a forest: when every node in turn adds its sum to that of its
parent, and children come before parents, each node ends with the sum of its subtree.
-/

namespace DisjointSets

variable {α A : Type} [DecidableEq α] [AddCommMonoid A]

def Forest.gather (forest : Forest α) : List α → (α → A) → α → A
  | [], sums => sums
  | node :: nodes, sums =>
      forest.gather nodes
        (Function.update sums (forest.link node) (sums (forest.link node) + sums node))

inductive Forest.Via (forest : Forest α) (nodes : List α) : α → α → Prop
  | here (node : α) : Via forest nodes node node
  | up (node top : α) : node ∈ nodes → Via forest nodes (forest.link node) top →
      Via forest nodes node top

section

omit [DecidableEq α]

variable {forest : Forest α} {nodes : List α} {node top : α}

private theorem Forest.Via.isBelow (via : forest.Via nodes node top) : forest.Below node top := by
  induction via with
  | here node => exact Forest.Below.here node
  | up node top _listed _via ih => exact Forest.Below.up node top ih

theorem Forest.Via.more (more : α) (via : forest.Via nodes node top) :
    forest.Via (more :: nodes) node top := by
  induction via with
  | here node => exact Forest.Via.here node
  | up node top listed _via ih => exact Forest.Via.up node top (List.mem_cons_of_mem more listed) ih

theorem Forest.Via.end (via : forest.Via nodes node top) :
    node = top ∨ ∃ last ∈ nodes, forest.link last = top := by
  induction via with
  | here node => exact Or.inl rfl
  | up node top listed _via ih =>
      refine Or.inr ?_
      rcases ih with same | found
      · exact ⟨node, listed, same⟩
      · exact found

theorem Forest.Via.unlisted (via : forest.Via nodes node top) (unlisted : node ∉ nodes) :
    node = top := by
  cases via with
  | here => rfl
  | up _ _ listed _via => exact absurd listed unlisted

theorem Forest.via_cons_iff (first : α) (unlinked : ∀ other ∈ nodes, forest.link other ≠ first) :
    forest.Via (first :: nodes) node top ↔
      forest.Via nodes node top ∨ (node = first ∧ forest.Via nodes (forest.link first) top) := by
  constructor
  · intro via
    induction via with
    | here node => exact Or.inl (Forest.Via.here node)
    | up node top listed _via ih =>
        rcases ih with direct | ⟨leadsToFirst, later⟩
        · rcases List.mem_cons.mp listed with same | inNodes
          · subst same
            exact Or.inr ⟨rfl, direct⟩
          · exact Or.inl (Forest.Via.up node top inNodes direct)
        · rcases List.mem_cons.mp listed with same | inNodes
          · subst same
            rw [leadsToFirst] at later
            exact Or.inr ⟨rfl, leadsToFirst.symm ▸ later⟩
          · exact absurd leadsToFirst (unlinked node inNodes)
  · intro either
    rcases either with direct | ⟨same, later⟩
    · exact direct.more first
    · rw [same]
      exact Forest.Via.up first top List.mem_cons_self (later.more first)

private theorem Forest.Below.via {forest : Forest α} (inside : α → Prop)
    (closed : ∀ node, inside node → inside (forest.link node))
    (listed : ∀ node, inside node → forest.link node ≠ node → node ∈ nodes) {node top : α}
    (below : forest.Below node top) (here : inside node) : forest.Via nodes node top := by
  induction below with
  | here node => exact Forest.Via.here node
  | up node top _below ih =>
      have later := ih (closed node here)
      by_cases rooted : forest.link node = node
      · rwa [rooted] at later
      · exact Forest.Via.up node top (listed node here rooted) later

end

theorem Forest.gather_via (forest : Forest α) (nodes : List α) (distinct : nodes.Nodup)
    (linked : ∀ node ∈ nodes, forest.link node ≠ node)
    (ordered : nodes.Pairwise (fun earlier later => forest.link later ≠ earlier))
    (sums : α → A) (top : α) (below : Finset α)
    (listed : ∀ node, node ∈ below ↔ forest.Via nodes node top) :
    forest.gather nodes sums top = ∑ node ∈ below, sums node := by
  induction nodes generalizing sums below with
  | nil =>
      have only : below = {top} := by
        ext node
        rw [listed, Finset.mem_singleton]
        constructor
        · intro via
          exact via.unlisted List.not_mem_nil
        · intro same
          rw [same]
          exact Forest.Via.here top
      rw [gather, only, Finset.sum_singleton]
  | cons first nodes ih =>
      obtain ⟨fresh, restDistinct⟩ := List.nodup_cons.mp distinct
      obtain ⟨unlinked, restOrdered⟩ := List.pairwise_cons.mp ordered
      have passed := linked first List.mem_cons_self
      have opened (node : α) := listed node
      simp only [Forest.via_cons_iff first unlinked] at opened
      classical
      have inRest (node : α) : node ∈ below.filter (fun node => forest.Via nodes node top) ↔
          forest.Via nodes node top := by
        rw [Finset.mem_filter, opened]
        exact and_iff_right_of_imp Or.inl
      rw [gather, ih restDistinct (fun node member => linked node (List.mem_cons_of_mem _ member))
        restOrdered _ _ inRest]
      by_cases reached : forest.Via nodes (forest.link first) top
      · -- the first node's sum has gone into one that counts
        have notFirst : first ∉ below.filter (fun node => forest.Via nodes node top) := by
          rw [inRest]
          intro via
          have same := via.unlisted fresh
          rcases reached.end with direct | ⟨last, member, leads⟩
          · exact passed (direct.trans same.symm)
          · exact unlinked last member (leads.trans same.symm)
        have all : below = insert first (below.filter (fun node => forest.Via nodes node top)) := by
          ext node
          rw [Finset.mem_insert, inRest, opened, and_iff_left reached]
          exact or_comm
        have counted := (inRest _).mpr reached
        rw [Finset.sum_update_of_mem counted, all, Finset.sum_insert notFirst, ← all,
          ← Finset.sum_erase_add _ sums counted, Finset.sdiff_singleton_eq_erase,
          add_comm (sums (forest.link first)), add_assoc, add_comm (sums (forest.link first))]
      · have same : below.filter (fun node => forest.Via nodes node top) = below := by
          ext node
          rw [inRest, opened]
          exact (or_iff_left (fun both => reached both.2)).symm
        have uncounted : forest.link first ∉ below := by
          rw [← same, inRest]
          exact reached
        rw [same, Finset.sum_update_of_notMem uncounted]

/-- When all nodes with a parent have passed on their sums, a node has that of its subtree. -/
theorem Forest.gather_below (forest : Forest α) (nodes : List α) (distinct : nodes.Nodup)
    (inside : α → Prop) (closed : ∀ node, inside node → inside (forest.link node))
    (listed : ∀ node, node ∈ nodes ↔ inside node ∧ forest.link node ≠ node)
    (ordered : nodes.Pairwise (fun earlier later => forest.link later ≠ earlier))
    (sums : α → A) (top : α) (here : inside top) (below : Finset α)
    (subtree : ∀ node, node ∈ below ↔ inside node ∧ forest.Below node top) :
    forest.gather nodes sums top = ∑ node ∈ below, sums node := by
  refine forest.gather_via nodes distinct (fun node member => ((listed node).mp member).2) ordered
    sums top below ?_
  intro node
  rw [subtree]
  constructor
  · intro both
    exact both.2.via inside closed (fun node isInside passed => (listed node).mpr ⟨isInside, passed⟩)
      both.1
  · intro via
    refine ⟨?_, via.isBelow⟩
    cases via with
    | here => exact here
    | up _ _ member _via => exact ((listed node).mp member).1

end DisjointSets
