import Mathlib.Data.List.Basic

/-!
Greedy selection: the first item is taken and drops all those it does not spare, and so
on with what is left. The same items are taken when each item in turn is compared with
all that were taken before.
-/

namespace GreedySelection

variable {α : Type} (spares : α → α → Bool)

def take (kept : List α) (item : α) : List α :=
  if kept.all (fun other => spares other item) then kept ++ [item] else kept

def selected (items : List α) : List α := items.foldl (take spares) []

private theorem take_cons (first : α) (kept : List α) (item : α) :
    take spares (first :: kept) item =
      if spares first item then first :: take spares kept item else first :: kept := by
  rw [take, take, List.all_cons]
  cases spares first item with
  | false => rfl
  | true =>
      rw [Bool.true_and, if_pos rfl]
      split <;> rfl

private theorem foldl_take_cons (first : α) (items kept : List α) :
    items.foldl (take spares) (first :: kept) =
      first :: (items.filter (spares first)).foldl (take spares) kept := by
  induction items generalizing kept with
  | nil => rfl
  | cons item items ih =>
      rw [List.foldl_cons, take_cons]
      cases spared : spares first item with
      | false =>
          rw [if_neg Bool.false_ne_true, ih,
            List.filter_cons_of_neg (by rw [spared]; exact Bool.false_ne_true)]
      | true =>
          rw [if_pos rfl, ih, List.filter_cons_of_pos spared, List.foldl_cons]

theorem selected_nil : selected spares [] = [] := rfl

theorem selected_cons (first : α) (items : List α) :
    selected spares (first :: items) = first :: selected spares (items.filter (spares first)) := by
  rw [selected, List.foldl_cons, take, List.all_nil, if_pos rfl, List.nil_append, foldl_take_cons]
  rfl

private theorem foldl_take_pairwise (items kept : List α)
    (apart : kept.Pairwise (fun earlier later => spares earlier later = true)) :
    (items.foldl (take spares) kept).Pairwise (fun earlier later => spares earlier later = true) := by
  induction items generalizing kept with
  | nil => exact apart
  | cons item items ih =>
      rw [List.foldl_cons]
      apply ih
      rw [take]
      split
      · rename_i spared
        refine List.pairwise_append.mpr ⟨apart, List.pairwise_singleton _ _, ?_⟩
        intro other member last isLast
        rw [List.mem_singleton.mp isLast]
        exact List.all_eq_true.mp spared other member
      · exact apart

/-- No taken item drops another one. -/
theorem selected_pairwise (items : List α) :
    (selected spares items).Pairwise (fun earlier later => spares earlier later = true) :=
  foldl_take_pairwise spares items [] List.Pairwise.nil

theorem foldl_take_append (items kept : List α) :
    ∃ rest, items.foldl (take spares) kept = kept ++ rest ∧ rest.Sublist items := by
  induction items generalizing kept with
  | nil => exact ⟨[], (List.append_nil kept).symm, List.Sublist.refl []⟩
  | cons item items ih =>
      rw [List.foldl_cons, take]
      split
      · obtain ⟨rest, result, sublist⟩ := ih (kept ++ [item])
        rw [List.append_assoc, List.singleton_append] at result
        exact ⟨item :: rest, result, sublist.cons_cons item⟩
      · obtain ⟨rest, result, sublist⟩ := ih kept
        exact ⟨rest, result, sublist.cons item⟩

/-- What becomes of one item: those taken before it alone decide. -/
theorem selected_split (before : List α) (item : α) (after : List α) :
    (∃ rest, selected spares (before ++ item :: after) = selected spares before ++ item :: rest ∧
        rest.Sublist after ∧ ∀ other ∈ selected spares before, spares other item = true) ∨
      (∃ rest, selected spares (before ++ item :: after) = selected spares before ++ rest ∧
        rest.Sublist after ∧ ∃ other ∈ selected spares before, spares other item = false) := by
  rw [selected, List.foldl_append, List.foldl_cons, ← selected, take]
  by_cases spared : (selected spares before).all (fun other => spares other item) = true
  · rw [if_pos spared]
    obtain ⟨rest, result, sublist⟩ := foldl_take_append spares after (selected spares before ++ [item])
    rw [List.append_assoc, List.singleton_append] at result
    exact Or.inl ⟨rest, result, sublist, List.all_eq_true.mp spared⟩
  · rw [if_neg spared]
    obtain ⟨rest, result, sublist⟩ := foldl_take_append spares after (selected spares before)
    refine Or.inr ⟨rest, result, sublist, ?_⟩
    rw [List.all_eq_true] at spared
    push Not at spared
    obtain ⟨other, member, drops⟩ := spared
    exact ⟨other, member, Bool.eq_false_iff.mpr drops⟩

private theorem foldl_take_sublist (items kept : List α) :
    (items.foldl (take spares) kept).Sublist (kept ++ items) := by
  induction items generalizing kept with
  | nil => rw [List.append_nil, List.foldl_nil]
  | cons item items ih =>
      rw [List.foldl_cons]
      refine (ih _).trans ?_
      rw [take]
      split
      · rw [List.append_assoc, List.singleton_append]
      · exact (List.sublist_cons_self item items).append_left kept

theorem selected_sublist (items : List α) : (selected spares items).Sublist items :=
  foldl_take_sublist spares items []

theorem selected_replicate (count : Nat) (item : α) :
    selected spares (List.replicate (count + 1) item) =
      if spares item item then List.replicate (count + 1) item else [item] := by
  cases spared : spares item item with
  | false =>
      rw [List.replicate_succ, selected_cons, List.filter_replicate, spared]
      rfl
  | true =>
      rw [if_pos rfl]
      induction count with
      | zero => rfl
      | succ count ih =>
          rw [List.replicate_succ, selected_cons, List.filter_replicate, if_pos spared, ih]

end GreedySelection
